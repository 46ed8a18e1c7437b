import Homestead.Lib.Avp
import Homestead.Model.DiameterTasks

/-!
# `Homestead.Model.Cx`: the messages to and from the HSS

The embedding of `src/cx.h` and `src/cx.cpp`, on the trees of AVPs that freeDiameter encodes. The
constructors write, and the member functions read the first AVP of a name, or all of them where
the source has a loop.

The session id, the application id and the origin are cpp-common's, and so are the readers of the
result codes: `CxMessage` has them as fields, with 0 for a code that is missing. An octet string is
a `String`, as a `std::string` is everywhere in the model.
-/

set_option autoImplicit false

namespace Homestead

/-! ### The dictionary -/

/-- The AVPs of `Cx::Dictionary` and of its base class that the code reads or writes. -/
inductive CxAvpName
  | authSessionState
  | destinationHost
  | destinationRealm
  | userName
  | publicIdentity
  | sipAuthDataItem
  | sipAuthScheme
  | sipAuthorization
  | sipNumberAuthItems
  | serverName
  | sipDigestAuthenticate
  | cxDigestHa1
  | cxDigestRealm
  | cxDigestQop
  | digestHa1
  | digestRealm
  | digestQop
  | visitedNetworkIdentifier
  | serverCapabilities
  | mandatoryCapability
  | optionalCapability
  | serverAssignmentType
  | userAuthorizationType
  | originatingRequest
  | userDataAlreadyAvailable
  | userData
  | sipAuthenticate
  | confidentialityKey
  | integrityKey
  | associatedIdentities
  | deregistrationReason
  | reasonCode
  | chargingInformation
  | primaryChargingCollectionFunctionName
  | secondaryChargingCollectionFunctionName
  | primaryEventChargingFunctionName
  | secondaryEventChargingFunctionName
  | supportedFeatures
  | vendorId
  | featureListId
  | featureList
  | wildcardedPublicIdentity
  | uarFlags
  deriving DecidableEq, Repr

@[reducible] def CxAvpName.kind : CxAvpName → AvpKind
  | .authSessionState | .sipNumberAuthItems | .mandatoryCapability | .optionalCapability
  | .serverAssignmentType | .userAuthorizationType | .originatingRequest
  | .userDataAlreadyAvailable | .reasonCode | .vendorId | .featureListId | .featureList
  | .uarFlags => .int
  | .sipAuthDataItem | .sipDigestAuthenticate | .serverCapabilities | .associatedIdentities
  | .deregistrationReason | .chargingInformation | .supportedFeatures => .group
  | _ => .str

abbrev CxAvp := Avp CxAvpName.kind

/-- A Cx message. -/
structure CxMessage where
  resultCode : Int := 0
  experimentalResult : Int := 0
  vendorId : Nat := 0
  avps : List CxAvp

/-- The result of a message that carries one code. -/
def CxMessage.withResult (resultCode : Int) (vendorId : Nat) (experimentalResult : Int)
    (avps : List CxAvp) : CxMessage :=
  if resultCode ≠ 0 then { resultCode := resultCode, avps := avps }
  else { experimentalResult := experimentalResult, vendorId := vendorId, avps := avps }

/-! ### Result codes -/

def diameterSuccess : Int := 2001
def diameterUnableToDeliver : Int := 3002
def diameterTooBusy : Int := 3004
def diameterAuthorizationRejected : Int := 5003
def vendorId3gpp : Nat := 10415
def diameterFirstRegistration : Int := 2001
def diameterSubsequentRegistration : Int := 2002
def diameterUnregisteredService : Int := 2003
def diameterErrorUserUnknown : Int := 5001
def diameterErrorIdentitiesDontMatch : Int := 5002
def diameterErrorIdentityNotRegistered : Int := 5003
def diameterErrorRoamingNotAllowed : Int := 5004
def diameterErrorInAssignmentType : Int := 5007

/-! ### Authentication vectors and capabilities -/

/-- `DigestAuthVector`. -/
structure DigestAuthVector where
  ha1 : String := ""
  realm : String := ""
  qop : String := ""
  deriving DecidableEq, Repr

/-- `AKAAuthVector`. -/
structure AkaAuthVector where
  challenge : String := ""
  response : String := ""
  cryptKey : String := ""
  integrityKey : String := ""
  version : Int := 1
  deriving DecidableEq, Repr

/-- `AuthVector`, with its two subclasses. -/
inductive AuthVector
  | digest (av : DigestAuthVector)
  | aka (av : AkaAuthVector)
  deriving DecidableEq, Repr

/-- `ServerCapabilities`. -/
structure ServerCapabilities where
  mandatoryCapabilities : List Int := []
  optionalCapabilities : List Int := []
  serverName : String := ""
  deriving DecidableEq, Repr

namespace Cx

open Avp CxAvpName

/-! ### Requests -/

/-- The AVPs of every request to the HSS. The Destination-Host is left out when it is empty. -/
def destination (destHost destRealm : String) : List CxAvp :=
  addIf (destHost ≠ "") (.str destinationHost rfl destHost) ++
    [.str destinationRealm rfl destRealm]

/-- The User-Authorization-Type AVP. -/
def userAuthorizationTypeCode (authorizationType : String) : Int :=
  if authorizationType = "DEREG" then 1 else if authorizationType = "CAPAB" then 2 else 0

/-- `UserAuthorizationRequest`. -/
def userAuthorizationRequest (destHost destRealm impi impu visitedNetworkId authorizationType : String)
    (emergency : Bool) : CxMessage where
  avps := [.int authSessionState rfl 1] ++ destination destHost destRealm ++
    [.str userName rfl impi, .str publicIdentity rfl impu,
      .str visitedNetworkIdentifier rfl visitedNetworkId,
      .int userAuthorizationType rfl (userAuthorizationTypeCode authorizationType)] ++
    addIf (emergency = true) (.int uarFlags rfl 1)

/-- `LocationInfoRequest`. The Originating-Request AVP is there if the request is originating, and
the User-Authorization-Type AVP if capabilities are asked for. -/
def locationInfoRequest (destHost destRealm originating impu authorizationType : String) :
    CxMessage where
  avps := [.int authSessionState rfl 1] ++ destination destHost destRealm ++
    addIf (originating = "true") (.int originatingRequest rfl 0) ++
    [.str publicIdentity rfl impu] ++
    addIf (authorizationType = "CAPAB") (.int userAuthorizationType rfl 2)

/-- `MultimediaAuthRequest`. It takes the realm before the host, unlike the others. -/
def multimediaAuthRequest (destRealm destHost impi impu server scheme authorization : String) :
    CxMessage where
  avps := [.int authSessionState rfl 1, .str destinationRealm rfl destRealm] ++
    addIf (destHost ≠ "") (.str destinationHost rfl destHost) ++
    [.str userName rfl impi, .str publicIdentity rfl impu,
      .group sipAuthDataItem rfl ([.str sipAuthScheme rfl scheme] ++
        addIf (authorization ≠ "") (.str sipAuthorization rfl authorization)),
      .int sipNumberAuthItems rfl 1, .str serverName rfl server]

/-- The values of `ServerAssignmentType` on the wire. -/
def serverAssignmentTypeCode : ServerAssignmentType → Int
  | .registration => 1
  | .reRegistration => 2
  | .unregisteredUser => 3
  | .timeoutDeregistration => 4
  | .userDeregistration => 5
  | .administrativeDeregistration => 8
  | .authenticationFailure => 9
  | .authenticationTimeout => 10

/-- `include_wildcard_on_sar`. -/
def includeWildcardOnSar : ServerAssignmentType → Bool
  | .unregisteredUser | .administrativeDeregistration | .timeoutDeregistration => true
  | _ => false

/-- `ServerAssignmentRequest`. -/
def serverAssignmentRequest (destHost destRealm impi impu server : String)
    (type : ServerAssignmentType) (supportSharedIfcs : Bool) (wildcard : String) : CxMessage where
  avps := [.int authSessionState rfl 1] ++ destination destHost destRealm ++
    addIf (impi ≠ "") (.str userName rfl impi) ++
    [.str publicIdentity rfl impu, .str serverName rfl server,
      .int CxAvpName.serverAssignmentType rfl (serverAssignmentTypeCode type),
      .int userDataAlreadyAvailable rfl 0] ++
    addIf (wildcard ≠ "" ∧ includeWildcardOnSar type = true)
      (.str wildcardedPublicIdentity rfl wildcard) ++
    addIf (supportSharedIfcs = true)
      (.group supportedFeatures rfl
        [.int vendorId rfl 10415, .int featureListId rfl 1, .int featureList rfl 1])

/-! ### Charging addresses -/

/-- The Charging-Information AVP of `ServerAssignmentAnswer` and `PushProfileRequest`. The second
event charging function is written when there is a second *collection* function, so that the code
reads past the end of `ecfs` (`none`) when there is no second event charging function then. -/
def chargingInformation (addrs : ChargingAddresses) : Option (List CxAvp) :=
  if addrs.ccfs = [] ∧ addrs.ecfs = [] then some []
  else if addrs.ccfs.length > 1 ∧ addrs.ecfs.length ≤ 1 then none
  else some [.group CxAvpName.chargingInformation rfl
    ((addrs.ccfs[0]?.toList.map fun ccf => .str primaryChargingCollectionFunctionName rfl ccf) ++
      (addrs.ccfs[1]?.toList.map fun ccf => .str secondaryChargingCollectionFunctionName rfl ccf) ++
      (addrs.ecfs[0]?.toList.map fun ecf => .str primaryEventChargingFunctionName rfl ecf) ++
      if addrs.ccfs.length > 1 then
        addrs.ecfs[1]?.toList.map fun ecf => .str secondaryEventChargingFunctionName rfl ecf
      else [])]

/-- `charging_addrs`, and whether there is a Charging-Information AVP. -/
def chargingAddrs (avps : List CxAvp) : ChargingAddresses × Bool :=
  match getGroup CxAvpName.chargingInformation avps with
  | some info =>
    ({ ccfs := (getStr primaryChargingCollectionFunctionName info).toList ++
         (getStr secondaryChargingCollectionFunctionName info).toList
       ecfs := (getStr primaryEventChargingFunctionName info).toList ++
         (getStr secondaryEventChargingFunctionName info).toList }, true)
  | none => ({}, false)

/-! ### Capabilities -/

/-- The Server-Capabilities AVP of `UserAuthorizationAnswer` and `LocationInfoAnswer`. -/
def serverCapabilitiesAvp (capabs : ServerCapabilities) : CxAvp :=
  .group CxAvpName.serverCapabilities rfl
    (addIf (capabs.serverName ≠ "") (.str serverName rfl capabs.serverName) ++
      (capabs.mandatoryCapabilities.map fun c => .int mandatoryCapability rfl c) ++
      capabs.optionalCapabilities.map fun c => .int optionalCapability rfl c)

/-- `server_capabilities`. -/
def serverCapabilities (avps : List CxAvp) : ServerCapabilities :=
  match getGroup CxAvpName.serverCapabilities avps with
  | some capabs =>
    { mandatoryCapabilities := getInts mandatoryCapability capabs
      optionalCapabilities := getInts optionalCapability capabs
      serverName := (getStr serverName capabs).getD "" }
  | none => {}

/-- `UserAuthorizationAnswer`, which the tests build. -/
def userAuthorizationAnswer (resultCode : Int) (vendorId : Nat) (experimentalResultCode : Int)
    (server : String) (capabs : ServerCapabilities) : CxMessage :=
  .withResult resultCode vendorId experimentalResultCode
    (addIf (server ≠ "") (.str serverName rfl server) ++ [serverCapabilitiesAvp capabs])

/-- `LocationInfoAnswer`, which the tests build. -/
def locationInfoAnswer (resultCode : Int) (vendorId : Nat) (experimentalResultCode : Int)
    (server : String) (capabs : ServerCapabilities) (wildcard : String) : CxMessage :=
  .withResult resultCode vendorId experimentalResultCode
    (addIf (server ≠ "") (.str serverName rfl server) ++ [serverCapabilitiesAvp capabs] ++
      addIf (wildcard ≠ "") (.str wildcardedPublicIdentity rfl wildcard))

/-! ### Authentication vectors -/

/-- A member of the SIP-Auth-Data-Item AVP that is a string. -/
def authDataItem (name : CxAvpName) (avps : List CxAvp) : Option String :=
  (getGroup sipAuthDataItem avps).bind (getStr name)

/-- `sip_auth_scheme`. -/
def sipAuthScheme (avps : List CxAvp) : String :=
  (authDataItem CxAvpName.sipAuthScheme avps).getD ""

/-- `sip_authorization`. -/
def sipAuthorization (avps : List CxAvp) : String :=
  (authDataItem CxAvpName.sipAuthorization avps).getD ""

/-- `digest_auth_vector`. Some HSSs use the AVPs that are not 3GPP's. -/
def digestAuthVector (avps : List CxAvp) : DigestAuthVector :=
  match (getGroup sipAuthDataItem avps).bind (getGroup sipDigestAuthenticate) with
  | some digest =>
    { ha1 := ((getStr cxDigestHa1 digest).or (getStr digestHa1 digest)).getD ""
      realm := ((getStr cxDigestRealm digest).or (getStr digestRealm digest)).getD ""
      qop := ((getStr cxDigestQop digest).or (getStr digestQop digest)).getD "" }
  | none => {}

/-- `aka_auth_vector`, with `base64_encode` and `Utils::hex` of cpp-common. -/
def akaAuthVector (base64Encode hex : String → String) (avps : List CxAvp) : AkaAuthVector where
  challenge := ((authDataItem sipAuthenticate avps).map base64Encode).getD ""
  response := ((authDataItem CxAvpName.sipAuthorization avps).map hex).getD ""
  cryptKey := ((authDataItem confidentialityKey avps).map hex).getD ""
  integrityKey := ((authDataItem CxAvpName.integrityKey avps).map hex).getD ""

/-- `akav2_auth_vector`. -/
def akav2AuthVector (base64Encode hex : String → String) (avps : List CxAvp) : AkaAuthVector :=
  { akaAuthVector base64Encode hex avps with version := 2 }

/-- `MultimediaAuthAnswer`, which the tests build. -/
def multimediaAuthAnswer (resultCode : Int) (vendorId : Nat) (experimentalResultCode : Int)
    (scheme : String) (digestAv : DigestAuthVector) (akaAv : AkaAuthVector) : CxMessage :=
  .withResult resultCode vendorId experimentalResultCode
    [.group sipAuthDataItem rfl (addIf (scheme ≠ "") (.str CxAvpName.sipAuthScheme rfl scheme) ++
      [.group sipDigestAuthenticate rfl
        [.str cxDigestHa1 rfl digestAv.ha1, .str cxDigestRealm rfl digestAv.realm,
          .str cxDigestQop rfl digestAv.qop],
        .str sipAuthenticate rfl akaAv.challenge,
        .str CxAvpName.sipAuthorization rfl akaAv.response,
        .str confidentialityKey rfl akaAv.cryptKey, .str CxAvpName.integrityKey rfl akaAv.integrityKey])]

/-! ### Server-Assignment answers and requests of the HSS -/

/-- `ServerAssignmentAnswer`, which the tests build. -/
def serverAssignmentAnswer (resultCode : Int) (vendorId : Nat) (experimentalResultCode : Int)
    (imsSubscription : String) (addrs : ChargingAddresses) (wildcard : String) : Option CxMessage :=
  (chargingInformation addrs).map fun info =>
    .withResult resultCode vendorId experimentalResultCode
      ([.str userData rfl imsSubscription] ++ info ++
        addIf (wildcard ≠ "") (.str wildcardedPublicIdentity rfl wildcard))

/-- The Associated-Identities AVP, which is left out when there are none. -/
def associatedIdentitiesAvp (identities : List String) : List CxAvp :=
  addIf (identities ≠ [])
    (.group CxAvpName.associatedIdentities rfl (identities.map fun impi => .str userName rfl impi))

/-- `associated_identities` of a Registration-Termination request or answer. -/
def associatedIdentities (avps : List CxAvp) : List String :=
  ((getGroup CxAvpName.associatedIdentities avps).map (getStrs userName)).getD []

/-- `RegistrationTerminationRequest`, which the tests build. -/
def registrationTerminationRequest (reason : Int) (impi : String)
    (identities impus : List String) (sessionState : Int) : CxMessage where
  avps := [.int authSessionState rfl sessionState, .str userName rfl impi] ++
    associatedIdentitiesAvp identities ++
    (impus.map fun impu => .str publicIdentity rfl impu) ++
    [.group CxAvpName.deregistrationReason rfl [.int reasonCode rfl reason]]

/-- `impus` of a Registration-Termination request. -/
def impus (avps : List CxAvp) : List String := getStrs publicIdentity avps

/-- `deregistration_reason`. -/
def deregistrationReason (avps : List CxAvp) : Int :=
  ((getGroup CxAvpName.deregistrationReason avps).bind (getInt reasonCode)).getD 0

/-- `RegistrationTerminationAnswer`, after the result that `set_result_code` sets. -/
def registrationTerminationAnswer (sessionState : Int) (identities : List String) : List CxAvp :=
  [.int authSessionState rfl sessionState] ++ associatedIdentitiesAvp identities

/-- `PushProfileRequest`, which the tests build. -/
def pushProfileRequest (impi imsSubscription : String) (addrs : ChargingAddresses)
    (sessionState : Int) : Option CxMessage :=
  (chargingInformation addrs).map fun info =>
    { avps := [.str userName rfl impi] ++
        addIf (imsSubscription ≠ "") (.str userData rfl imsSubscription) ++
        [.int authSessionState rfl sessionState] ++ info }

end Cx

/-- What `RegistrationTerminationTask::run` reads of a request. -/
def Rtr.ofAvps (avps : List CxAvp) : Rtr where
  deregistrationReason := Cx.deregistrationReason avps
  impi := (Avp.getStr CxAvpName.userName avps).getD ""
  associatedIdentities := Cx.associatedIdentities avps
  impus := Cx.impus avps

/-- What `PushProfileTask::run` reads of a request. -/
def Ppr.ofAvps (avps : List CxAvp) : Ppr where
  impi := (Avp.getStr CxAvpName.userName avps).getD ""
  userData := Avp.getStr CxAvpName.userData avps
  chargingAddrs := if (Cx.chargingAddrs avps).2 then some (Cx.chargingAddrs avps).1 else none

end Homestead

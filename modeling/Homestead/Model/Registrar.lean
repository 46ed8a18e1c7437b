import Homestead.Model.ImpuRegDataTask
import Mathlib.Data.Set.Insert
import Mathlib.Logic.Function.Basic

/-!
# `Homestead.Model.Registrar`: a registrar, abstractly

What the reg-data interface is for, without the cache: a table with the registration of each
subscriber, by the default identity (`Table`). This is not translated from the source. It is
the specification that `Homestead.Proofs.Registrar` compares the node with.

`Directory` says which public identities belong together. `Asks` is the SAR that a request needs,
if it needs one, and `Table.after` what its answer does to the table. `RegistrarStep` is one
request: what the node asks the HSS, what it answers, and the table after it.
-/

set_option autoImplicit false

namespace Homestead

/-- The public identities of the subscribers. Each has the default identity of its subscriber. -/
structure Directory where
  defaultOf : String → Option String
  self : ∀ id D, defaultOf id = some D → defaultOf D = some D

/-- The document names the identities of the subscriber `D`. -/
structure Directory.Describes (dir : Directory) (px : XmlParser) (xml D : String) : Prop where
  defaultId : px.getDefaultId xml "" = D
  publicIds : ∀ id, id ∈ px.getPublicIds xml ↔ dir.defaultOf id = some D

/-- What is known of a registered subscriber, or of one who is not and has services. -/
@[ext] structure Registration where
  registered : Bool
  impis : Set String
  profile : String
  chargingAddresses : ChargingAddresses

/-- The registrations, by default identity. -/
abbrev Table := String → Option Registration

/-- The registration that a public identity leads to. -/
def Directory.find (dir : Directory) (tbl : Table) (id : String) : Option Registration :=
  (dir.defaultOf id).bind tbl

theorem Directory.find_of_some {dir : Directory} {id D : String} (h : dir.defaultOf id = some D)
    (tbl : Table) : dir.find tbl id = tbl D := by
  rw [find, h, Option.bind_some]

theorem Directory.find_of_none {dir : Directory} {id : String} (h : dir.defaultOf id = none)
    (tbl : Table) : dir.find tbl id = none := by
  rw [find, h, Option.bind_none]

/-! ### Requests -/

/-- What a request is about. The IMPI and the wildcard are empty when none is known. -/
structure Inquiry where
  type : RequestType
  impu : String
  wildcard : String
  impi : String
  deriving DecidableEq

/-- The identity that the registration is known by. -/
def Inquiry.publicId (q : Inquiry) : String := if q.wildcard = "" then q.impu else q.wildcard

/-- What the task asks the registrar. -/
def ImpuRegDataTask.inquiry (t : ImpuRegDataTask) : Inquiry where
  type := t.type
  impu := t.impu
  wildcard := t.wildcardId
  impi := t.impi

/-- What a request asks the registrar. -/
def RegDataConfig.inquiry (cfg : RegDataConfig) (req : HttpRequest) : HttpMethod × Inquiry :=
  (req.method, (ImpuRegDataTask.ofRequest cfg req).inquiry)

/-- The IMPI of the inquiry, or else the one that the registration names. -/
def Inquiry.impiFor (q : Inquiry) (privateId : String → String) : Option Registration → String
  | none => if q.impi = "" then privateId "" else q.impi
  | some r => if q.impi = "" then privateId r.profile else q.impi

/-- The subscriber is registered, and not with another IMPI only. -/
def Inquiry.IsKnown (q : Inquiry) (r : Registration) : Prop :=
  r.registered = true ∧ ¬ (q.impi ≠ "" ∧ r.profile ≠ "" ∧ q.impi ∉ r.impis)

/-- The type of the SAR that the inquiry leads to, for the registration of the subscriber. -/
inductive Inquiry.Asks (q : Inquiry) : Option Registration → ServerAssignmentType → Prop
  | reRegistration (r : Registration) (htype : q.type = .reg) (hknown : q.IsKnown r) :
    Asks q (some r) .reRegistration
  | registration (r? : Option Registration) (htype : q.type = .reg)
    (hnew : ∀ r, r? = some r → ¬ q.IsKnown r) : Asks q r? .registration
  | unregisteredUser (htype : q.type = .call) : Asks q none .unregisteredUser
  | deregistration (r : Registration) (htype : q.type.isDeregistrationRequest = true) :
    Asks q (some r) q.type.sarType
  | authFailure (r? : Option Registration) (htype : q.type.isAuthFailureRequest = true) :
    Asks q r? q.type.sarType

/-- The SAR for the inquiry names its identities, and the IMPI that is known. -/
structure Inquiry.Sends (q : Inquiry) (privateId : String → String) (r? : Option Registration)
    (request : ServerAssignmentRequest) : Prop where
  asks : q.Asks r? request.type
  impu : request.impu = q.impu
  wildcardImpu : request.wildcardImpu = q.wildcard
  impi : request.impi = q.impiFor privateId r?

/-- The registration that an answer `SUCCESS` of the HSS makes. -/
def ServerAssignmentAnswer.registration (saa : ServerAssignmentAnswer) (registered : Bool)
    (impis : Set String) : Registration where
  registered := registered
  impis := impis
  profile := saa.serviceProfile
  chargingAddresses := saa.chargingAddresses

/-- The table with another entry for a subscriber, if there is the subscriber. -/
def Table.set (tbl : Table) (r? : Option Registration) : Option String → Table
  | some D => Function.update tbl D r?
  | none => tbl

/-- The table after an SAR of the subscriber `D` was answered. -/
def Table.after (tbl : Table) (privateId : String → String) (q : Inquiry) (D : Option String)
    (saa : ServerAssignmentAnswer) : ServerAssignmentType → Table
  | .registration =>
    if saa.result = .success then
      tbl.set (some (saa.registration true
        (insert (q.impiFor privateId (D.bind tbl)) ((D.bind tbl).elim ∅ Registration.impis)))) D
    else tbl
  | .reRegistration =>
    if saa.result = .success then
      tbl.set (some (saa.registration true ((D.bind tbl).elim ∅ Registration.impis))) D
    else tbl
  | .unregisteredUser =>
    if saa.result = .success then tbl.set (some (saa.registration false ∅)) D else tbl
  -- The registration ends also when the HSS rejects it, if the HSS was reached.
  | .userDeregistration | .administrativeDeregistration | .timeoutDeregistration =>
    if saa.result = .serverUnavailable then tbl else tbl.set none D
  | .authenticationFailure | .authenticationTimeout => tbl

/-- The code that a result of the HSS is answered with. -/
def ResultCode.httpCode : ResultCode → HttpCode
  | .success => httpOk
  | .serverUnavailable => httpServerUnavailable
  | .notFound => httpNotFound
  | .timeout => httpGatewayTimeout
  | _ => httpServerError

/-- What a node does that can be seen from outside, and what its lookups show. -/
inductive Observation
  | found (r : Registration)
  | notFound (rc : Status)
  | sar (request : ServerAssignmentRequest) (saa : ServerAssignmentAnswer)
  | reply (rc : HttpCode) (content : String)
  | deregisterBindings (sendNotifications : Bool) (defaultPublicIds impis : List String)
    (sprout : HttpCode)
  | changeAssociatedIdentities (defaultId userData : String) (sprout : HttpCode)
  | rta (result : DiameterResult) (impis : List String)
  | ppa (result : DiameterResult)

/-- The reply to a request that ends with `rc`. With 200 it is what the reg-data document is. -/
inductive IsReply : HttpCode → Observation → Prop
  | failed (rc : HttpCode) (hrc : rc ≠ httpOk) : IsReply rc (.reply rc "")
  | built (rc : HttpCode) (document : String) :
    IsReply httpOk (.reply rc (if rc = httpOk then document else ""))

/-- What the lookup of the identity shows. -/
def lookedUp : Option Registration → Observation
  | some r => .found r
  | none => .notFound .notFound

/-- One request of the reg-data interface. -/
inductive RegistrarStep (privateId : String → String) (dir : Directory) (tbl : Table)
    (method : HttpMethod) (q : Inquiry) : List Observation → Table → Prop
  | get (r : Registration) (reply : Observation) (hmethod : method = .get)
    (hfind : dir.find tbl q.publicId = some r) (hreply : IsReply httpOk reply) :
    RegistrarStep privateId dir tbl method q [.found r, reply] tbl
  | getNone (hmethod : method = .get) (hfind : dir.find tbl q.publicId = none) :
    RegistrarStep privateId dir tbl method q [.notFound .notFound, .reply httpNotFound ""] tbl
  /-- A registration that is known, or a call for a subscriber who has services. -/
  | fromTable (r : Registration) (reply : Observation) (hmethod : method = .put)
    (hfind : dir.find tbl q.publicId = some r)
    (hknown : q.type = .reg ∧ q.IsKnown r ∨ q.type = .call) (hreply : IsReply httpOk reply) :
    RegistrarStep privateId dir tbl method q [.found r, reply] tbl
  /-- A deregistration of a subscriber who is not registered. -/
  | notRegistered (hmethod : method = .put) (hfind : dir.find tbl q.publicId = none)
    (htype : q.type.isDeregistrationRequest = true) :
    RegistrarStep privateId dir tbl method q [.notFound .notFound, .reply httpBadRequest ""] tbl
  | asked (request : ServerAssignmentRequest) (saa : ServerAssignmentAnswer) (reply : Observation)
    (hmethod : method = .put) (hsends : q.Sends privateId (dir.find tbl q.publicId) request)
    (hreply : IsReply saa.result.httpCode reply) :
    RegistrarStep privateId dir tbl method q
      [lookedUp (dir.find tbl q.publicId), .sar request saa, reply]
      (tbl.after privateId q (dir.defaultOf q.publicId) saa request.type)
  /-- A request that cannot be read. -/
  | rejected (rc : HttpCode)
    (hrc : method = .other ∧ rc = httpBadMethod ∨
      method = .put ∧ q.type = .unknown ∧ rc = httpBadRequest) :
    RegistrarStep privateId dir tbl method q [.reply rc ""] tbl

/-- Requests in turn. -/
inductive RegistrarRun (privateId : String → String) (dir : Directory) :
    Table → List (HttpMethod × Inquiry) → List Observation → Table → Prop
  | nil (tbl : Table) : RegistrarRun privateId dir tbl [] [] tbl
  | cons {tbl tbl' tbl'' : Table} {method : HttpMethod} {q : Inquiry}
    {requests : List (HttpMethod × Inquiry)} {seen seen' : List Observation}
    (hstep : RegistrarStep privateId dir tbl method q seen tbl')
    (hrun : RegistrarRun privateId dir tbl' requests seen' tbl'') :
    RegistrarRun privateId dir tbl ((method, q) :: requests) (seen ++ seen') tbl''

end Homestead

import Homestead.Model.DiameterTasks
import Homestead.Model.Registrar

/-!
# `Homestead.Model.HssRequests`: the requests of the HSS, abstractly

What a Registration-Termination request and a Push-Profile request do to the table of registrations.
As `Homestead.Model.Registrar` this is a specification, and not translated from the source.

An RTR ends the registrations that its IMPIs or its IMPUs lead to, but not all of them: one for each
IMPI, and only the first that its IMPUs lead to (`Rtr.Concerns`). A PPR changes the registration
under the default identity of its document, if that is the one that the IMPI leads to.

`NodeStep` is any one request of the three interfaces of a node, and `DeploymentRun` are requests in
turn, each to any of the nodes of a deployment.
-/

set_option autoImplicit false

namespace Homestead

/-- The registration of `D` lists the IMPI. -/
def Table.Lists (tbl : Table) (impi D : String) : Prop := ∃ r, tbl D = some r ∧ impi ∈ r.impis

/-- The table without the entries of some subscribers. -/
def Table.without (tbl : Table) (Ds : List String) : Table := fun D =>
  if D ∈ Ds then none else tbl D

/-! ### Registration-Termination -/

/-- For each IMPI one subscriber whose registration lists it, if there is one. -/
inductive Table.OneForEach (tbl : Table) : List String → List String → Prop
  | nil : OneForEach tbl [] []
  | unlisted {impi : String} {impis Ds : List String} (hnone : ∀ D, ¬ tbl.Lists impi D)
    (hrest : OneForEach tbl impis Ds) : OneForEach tbl (impi :: impis) Ds
  | listed {impi D : String} {impis Ds : List String} (hlists : tbl.Lists impi D)
    (hrest : OneForEach tbl impis Ds) : OneForEach tbl (impi :: impis) (D :: Ds)

/-- The subscriber of the first identity that leads to a registration. -/
def Directory.firstFound (dir : Directory) (tbl : Table) : List String → List String
  | [] => []
  | id :: ids =>
    match dir.find tbl id with
    | some _ => (dir.defaultOf id).toList
    | none => firstFound dir tbl ids

/-- The subscribers that the RTR is about. -/
def Rtr.Concerns (rtr : Rtr) (dir : Directory) (tbl : Table) (Ds : List String) : Prop :=
  if RegistrationTerminationTask.impus rtr = [] then
    tbl.OneForEach (RegistrationTerminationTask.impis rtr) Ds
  else Ds = dir.firstFound tbl (RegistrationTerminationTask.impus rtr)

/-- The reason of the RTR is one of the four. -/
def Rtr.HasReason (rtr : Rtr) : Prop :=
  rtr.deregistrationReason = permanentTermination ∨ rtr.deregistrationReason = removeScscf ∨
    rtr.deregistrationReason = serverChange ∨ rtr.deregistrationReason = newServerAssigned

/-- What Sprout is told, and its answer. -/
def Rtr.notice (rtr : Rtr) (Ds : List String) (sprout : HttpCode) : Observation :=
  if rtr.deregistrationReason = permanentTermination then
    .deregisterBindings false Ds (RegistrationTerminationTask.impis rtr) sprout
  else .deregisterBindings (decide (rtr.deregistrationReason ≠ newServerAssigned)) Ds [] sprout

/-- An RTR. The HSS learns that Sprout refused, but the registrations end all the same. -/
inductive TerminationStep (dir : Directory) (tbl : Table) (rtr : Rtr) :
    List Observation → Table → Prop
  | noReason (hreason : ¬ rtr.HasReason) :
    TerminationStep dir tbl rtr [.rta .failure (RegistrationTerminationTask.impis rtr)] tbl
  | nothing (hreason : rtr.HasReason) (hconcerns : rtr.Concerns dir tbl []) :
    TerminationStep dir tbl rtr [.rta .success (RegistrationTerminationTask.impis rtr)] tbl
  | terminated (Ds : List String) (sprout : HttpCode) (hreason : rtr.HasReason) (hne : Ds ≠ [])
    (hconcerns : rtr.Concerns dir tbl Ds) :
    TerminationStep dir tbl rtr
      [rtr.notice Ds sprout, .rta (if sprout = httpOk then .success else .failure)
        (RegistrationTerminationTask.impis rtr)]
      (tbl.without Ds)

/-! ### Push-Profile -/

/-- The registration after a push. -/
def Registration.pushed (r : Registration) (ppr : Ppr) : Registration :=
  { r with
    profile := ppr.userData.getD r.profile
    chargingAddresses := ppr.chargingAddrs.getD r.chargingAddresses }

/-- A document that is pushed under the default identity of a subscriber describes the subscriber. -/
def Ppr.Truthful (ppr : Ppr) (dir : Directory) (px : XmlParser) : Prop :=
  ∀ xml, ppr.userData = some xml → ∀ D, px.getDefaultId xml "" = D → dir.defaultOf D = some D →
    dir.Describes px xml D

/-- A PPR. The subscriber may not change, and Sprout may refuse the document. -/
inductive PushStep (px : XmlParser) (tbl : Table) (ppr : Ppr) : List Observation → Table → Prop
  | nothing (hnothing : ppr.chargingAddrs = none ∧ ppr.userData = none) :
    PushStep px tbl ppr [.ppa .success] tbl
  | unlisted (hsome : ppr.chargingAddrs ≠ none ∨ ppr.userData ≠ none)
    (hnone : ∀ D, ¬ tbl.Lists ppr.impi D) : PushStep px tbl ppr [.ppa .failure] tbl
  | addresses (D : String) (r : Registration) (hr : tbl D = some r) (hlists : ppr.impi ∈ r.impis)
    (hxml : ppr.userData = none) (haddresses : ppr.chargingAddrs ≠ none) :
    PushStep px tbl ppr [.ppa .success] (Function.update tbl D (some (r.pushed ppr)))
  | otherDefault (D xml : String) (hlists : tbl.Lists ppr.impi D) (hxml : ppr.userData = some xml)
    (hother : px.getDefaultId xml "" ≠ D) : PushStep px tbl ppr [.ppa .failure] tbl
  | refused (D xml : String) (sprout : HttpCode) (hlists : tbl.Lists ppr.impi D)
    (hxml : ppr.userData = some xml) (hdefault : px.getDefaultId xml "" = D)
    (hsprout : sprout ≠ httpOk) :
    PushStep px tbl ppr [.changeAssociatedIdentities D xml sprout, .ppa .failure] tbl
  | profile (D xml : String) (r : Registration) (hr : tbl D = some r) (hlists : ppr.impi ∈ r.impis)
    (hxml : ppr.userData = some xml) (hdefault : px.getDefaultId xml "" = D) :
    PushStep px tbl ppr [.changeAssociatedIdentities D xml httpOk, .ppa .success]
      (Function.update tbl D (some (r.pushed ppr)))

/-! ### All requests -/

/-- A request to a node: from Sprout, from the management interface, or from the HSS. -/
inductive NodeRequest
  | regData (req : HttpRequest)
  | readRegData (req : HttpRequest)
  | termination (rtr : Rtr)
  | push (ppr : Ppr)

/-- The task of the request. -/
def NodeRequest.run (cfg : RegDataConfig) : NodeRequest → TaskProg Unit
  | .regData req => ImpuRegDataTask.run cfg req
  | .readRegData req => ImpuReadRegDataTask.run cfg req
  | .termination rtr => RegistrationTerminationTask.run cfg.cache rtr
  | .push ppr => PushProfileTask.run cfg.px cfg.cache ppr

/-- One request. -/
inductive NodeStep (cfg : RegDataConfig) (dir : Directory) (tbl : Table) :
    NodeRequest → List Observation → Table → Prop
  | regData (req : HttpRequest) {seen : List Observation} {tbl' : Table}
    (hstep : RegistrarStep cfg.getPrivateId dir tbl req.method (cfg.inquiry req).2 seen tbl') :
    NodeStep cfg dir tbl (.regData req) seen tbl'
  | readRegData (req : HttpRequest) {seen : List Observation} {tbl' : Table}
    (hmethod : req.method = .get)
    (hstep : RegistrarStep cfg.getPrivateId dir tbl .get (cfg.inquiry req).2 seen tbl') :
    NodeStep cfg dir tbl (.readRegData req) seen tbl'
  /-- The management interface does not write. -/
  | badMethod (req : HttpRequest) (hmethod : req.method ≠ .get) :
    NodeStep cfg dir tbl (.readRegData req) [.reply httpBadMethod ""] tbl
  | termination (rtr : Rtr) {seen : List Observation} {tbl' : Table}
    (hstep : TerminationStep dir tbl rtr seen tbl') :
    NodeStep cfg dir tbl (.termination rtr) seen tbl'
  | push (ppr : Ppr) {seen : List Observation} {tbl' : Table}
    (hstep : PushStep cfg.px tbl ppr seen tbl') : NodeStep cfg dir tbl (.push ppr) seen tbl'

/-- A request to the node of one site. -/
structure SiteRequest where
  site : RegDataConfig
  request : NodeRequest

/-- Requests in turn, to any of the nodes. -/
inductive DeploymentRun (dir : Directory) :
    Table → List SiteRequest → List Observation → Table → Prop
  | nil (tbl : Table) : DeploymentRun dir tbl [] [] tbl
  | cons {tbl tbl' tbl'' : Table} {r : SiteRequest} {requests : List SiteRequest}
    {seen seen' : List Observation} (hstep : NodeStep r.site dir tbl r.request seen tbl')
    (hrun : DeploymentRun dir tbl' requests seen' tbl'') :
    DeploymentRun dir tbl (r :: requests) (seen ++ seen') tbl''

end Homestead

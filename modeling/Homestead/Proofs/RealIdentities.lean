import Homestead.Proofs.Deregistration
import Homestead.Proofs.MappingKeys
import Homestead.Proofs.OneAnswer
import Homestead.Proofs.PublicIds
import Homestead.Proofs.RegDataRuns

/-!
# `Homestead.Proofs.RealIdentities`: the keys that a registration is written under

`put_in_cache` puts an IRS if its document has any public identity. The key of the IRS is another
one: the first identity that is not barred, which `set_ims_sub_xml` looks up for itself. And the
IMPI that `process_received_reg_data` adds is that of the request, or of the cached document, or
empty.

`Known` is what a run has been told so far. `identityMonitor` says for every run that the IRS of a
put has the default identity of the last SAA, and when it has an empty IMPI. With `mayMap_put_iff`,
`real_identities_iff` says when all the keys of a put are real.
-/

set_option autoImplicit false

namespace Homestead

/-! ### The default identity of a document -/

/-- The document has an identity that is not barred, and the first one is not empty. -/
def NamesDefault (px : XmlParser) (xml : String) : Prop :=
  ∃ id, (px.collectIds xml).unbarred.head? = some id ∧ id ≠ ""

theorem getDefaultId_real_iff (px : XmlParser) (xml : String) :
    px.getDefaultId xml "" ≠ "" ∧ px.getDefaultId xml "" ∈ px.getPublicIds xml ↔
      NamesDefault px xml := by
  have hdefault : px.getDefaultId xml "" = (px.collectIds xml).unbarred.head?.getD "" := rfl
  rw [hdefault]
  constructor
  · rintro ⟨hne, -⟩
    cases hhead : (px.collectIds xml).unbarred.head? with
    | none =>
      rw [hhead] at hne
      exact absurd rfl hne
    | some id =>
      rw [hhead] at hne
      exact ⟨id, hhead, hne⟩
  · rintro ⟨id, hhead, hne⟩
    rw [hhead]
    exact ⟨hne, px.collectIds_unbarred_subset xml (List.mem_of_head? hhead)⟩

/-! ### What a run has been told -/

/-- The IMPI of the request, or else of the cached document that was found first; the IRS that the
last lookup found; and the answer to the SAR after it. -/
structure Known where
  impi : String
  found : Option Irs := none
  saa : Option ServerAssignmentAnswer := none

section Known

variable (cfg : RegDataConfig)

/-- The IMPI that a cached document is asked for, if none is known. -/
def impiOr (impi userData : String) : String :=
  if impi = "" then cfg.getPrivateId userData else impi

def Known.step (known : Known) : Event TaskCall TaskCall.Resp → Known
  | ⟨.callback (.onGetRegDataSuccess irs), _⟩ =>
    { impi := impiOr cfg known.impi irs.imsSubXml, found := some irs }
  -- An IRS that is created has no document.
  | ⟨.callback (.onGetRegDataFailure _), _⟩ => { impi := impiOr cfg known.impi "" }
  | ⟨.sendServerAssignmentRequest _, saa⟩ => { known with saa := some saa }
  | _ => known

/-- What a run of the request has been told. -/
def known (req : HttpRequest) (hs : TaskHistory) : Known :=
  hs.foldl (Known.step cfg) { impi := cfg.urlUnescape req.privateId }

end Known

/-- A registration of a subscriber who is not known to be registered, without an IMPI. -/
def Known.AddsEmpty (type : RequestType) (known : Known) : Prop :=
  type = .reg ∧ (∀ irs, known.found = some irs → irs.registrationState ≠ .registered) ∧
    known.impi = ""

/-- The IRS is the one that was found or a new one, with an IMPI of the request. -/
structure Known.Prepares (type : RequestType) (known : Known) (irs : Irs) : Prop where
  existing : irs.existing = true ↔ known.found.isSome = true
  empty : "" ∈ irs.impis ↔
    (∃ irs₀, known.found = some irs₀ ∧ "" ∈ irs₀.impis) ∨ known.AddsEmpty type

/-- The IRS of a put is such a one, with the identities of the document of the last SAA. -/
structure Known.Puts (px : XmlParser) (type : RequestType) (known : Known) (irs : Irs) : Prop where
  prepares : known.Prepares type irs
  refreshed : irs.refreshed = true
  defaultImpu : ∃ saa, known.saa = some saa ∧ irs.defaultImpu = px.getDefaultId saa.serviceProfile ""

/-- When the task may put an IRS. -/
def identityMonitor (cfg : RegDataConfig) (type : RequestType) :
    Monitor TaskCall TaskCall.Resp Known where
  permits known
    | .addWork (.putIrs irs) => known.Puts cfg.px type irs
    | _ => True
  step := Known.step cfg

theorem unwatched_identityMonitor (cfg : RegDataConfig) (type : RequestType) :
    Unwatched (identityMonitor cfg type) := by
  intro known o ho
  cases o with
  | addWork request =>
    cases request with
    | getIrsForImpu impu => exact ⟨trivial, fun _ => rfl⟩
    | _ => exact ho.elim
  | callback cb =>
    cases cb with
    | onGetRegDataSuccess irs => exact ho.elim
    | onGetRegDataFailure rc => exact ho.elim
    | _ => exact ⟨trivial, fun _ => rfl⟩
  | sendServerAssignmentRequest request => exact ho.elim
  | _ => exact ⟨trivial, fun _ => rfl⟩

namespace ImpuRegDataTask

variable {cfg : RegDataConfig} {type : RequestType} {known : Known} {t : ImpuRegDataTask} {irs : Irs}

/-- The task has the IMPI that is known. -/
def Knows (type : RequestType) (t : ImpuRegDataTask) (known : Known) : Prop :=
  t.type = type ∧ t.impi = known.impi

/-- The SAR goes with an IRS that was prepared, unless its answer leads to no put. -/
theorem identifies_sendSar {sarType : ServerAssignmentType}
    (hprepares : type.isDeregistrationRequest = false → type.isAuthFailureRequest = false →
      known.Prepares type irs) (ht : t.Knows type known) :
    Leaves (identityMonitor cfg type) (Knows type) known (t.sendSar cfg irs sarType) := by
  have hM := unwatched_identityMonitor cfg type
  refine .call fun (saa : ServerAssignmentAnswer) => ⟨trivial, ?_⟩
  refine leaves_onSarResponse hM (fun _ t' ht' => ?_) fun _ => ht
  refine leaves_updateCache hM (fun _ hdereg hauth => ⟨?_, fun o => ⟨trivial, fun _ => rfl⟩⟩)
    fun _ _ => ⟨trivial, fun o => ⟨trivial, fun _ => rfl⟩⟩
  -- The put takes the document of the SAA into the IRS.
  rw [ht', ht.1] at hdereg hauth
  have hirs := hprepares hdereg hauth
  exact ⟨⟨hirs.existing, hirs.empty⟩, rfl, saa, rfl, rfl⟩

/-- The IRS that `process_received_reg_data` works on: one that was found, or a new one. -/
def Starts (known : Known) (irs : Irs) : Prop :=
  known.found = some irs ∧ irs.existing = true ∨
    known.found = none ∧ ∃ ttl state, irs = (Irs.new ttl state).setRegState .notRegistered

theorem Starts.existing (h : Starts known irs) : irs.existing = true ↔ known.found.isSome = true := by
  rcases h with ⟨hfound, hexisting⟩ | ⟨hnone, ttl, state, rfl⟩
  · simp [hfound, hexisting]
  · rw [hnone]
    simp [Irs.new, Irs.setRegState]

theorem Starts.empty (h : Starts known irs) :
    "" ∈ irs.impis ↔ ∃ irs₀, known.found = some irs₀ ∧ "" ∈ irs₀.impis := by
  rcases h with ⟨hfound, -⟩ | ⟨hnone, ttl, state, rfl⟩
  · simp [hfound]
  · rw [hnone]
    simp [Irs.new, Irs.setRegState]

theorem Starts.registered_iff (h : Starts known irs) : irs.registrationState = .registered ↔
    ∃ irs₀, known.found = some irs₀ ∧ irs₀.registrationState = .registered := by
  rcases h with ⟨hfound, -⟩ | ⟨hnone, ttl, state, rfl⟩
  · simp [hfound]
  · rw [hnone]
    simp [Irs.setRegState]

/-- An IRS with another state, for a request that adds no empty IMPI. -/
theorem prepares_setRegState (hstarts : Starts known irs) (hadds : ¬ known.AddsEmpty type)
    (state : RegistrationState) : known.Prepares type (irs.setRegState state) where
  existing := hstarts.existing
  empty := by
    rw [or_iff_left hadds]
    exact hstarts.empty

/-- A registration: the IMPI is added unless the subscriber is registered with it. -/
theorem identifies_processReg (hstarts : Starts known irs) (htype : type = .reg)
    (ht : t.Knows type known) (hstate : t.cachedRegState = irs.registrationState) {newBinding : Bool}
    (hnew : newBinding = true → known.impi ≠ "") :
    Leaves (identityMonitor cfg type) (Knows type) known (t.processReg cfg irs newBinding) := by
  have hM := unwatched_identityMonitor cfg type
  unfold processReg
  rw [hstate]
  split
  · rename_i hcached
    -- The subscriber is registered, so no IMPI is added.
    have hadds : ¬ known.AddsEmpty type := by
      rintro ⟨-, hnot, -⟩
      obtain ⟨irs₀, hfound, hregistered⟩ := hstarts.registered_iff.mp hcached.1
      exact hnot irs₀ hfound hregistered
    have hsar : ∀ sarType, Leaves (identityMonitor cfg type) (Knows type) known
        (t.sendSar cfg (irs.setRegState .registered) sarType) :=
      fun _ => identifies_sendSar (fun _ _ => prepares_setRegState hstarts hadds .registered) ht
    dsimp only
    split
    · exact hsar _
    · split
      · exact hsar _
      · exact leaves_replyAndFinish hM
  · rename_i hcached
    refine identifies_sendSar (fun _ _ => ⟨hstarts.existing, ?_⟩) ht
    show "" ∈ irs.impis.insert t.impi .added ↔ _
    rw [ht.2, Std.ExtTreeMap.mem_insert, hstarts.empty, Std.LawfulEqCmp.compare_eq_iff_eq, or_comm]
    refine or_congr_right ?_
    constructor
    · -- Without an IMPI there is no new binding, so the subscriber is not registered.
      intro himpi
      refine ⟨htype, fun irs₀ hfound hregistered => hcached ⟨?_, fun hbinding => ?_⟩, himpi⟩
      · exact hstarts.registered_iff.mpr ⟨irs₀, hfound, hregistered⟩
      · exact hnew hbinding himpi
    · exact fun hadds => hadds.2.2

theorem identifies_processCall (hstarts : Starts known irs) (hadds : ¬ known.AddsEmpty type)
    (ht : t.Knows type known) :
    Leaves (identityMonitor cfg type) (Knows type) known (t.processCall cfg irs) := by
  unfold processCall
  split
  · exact identifies_sendSar (fun _ _ => prepares_setRegState hstarts hadds _) ht
  · exact leaves_replyAndFinish (unwatched_identityMonitor cfg type)

theorem identifies_processDereg (hdereg : type.isDeregistrationRequest = true)
    (ht : t.Knows type known) :
    Leaves (identityMonitor cfg type) (Knows type) known (t.processDereg cfg irs) := by
  unfold processDereg
  split
  · refine identifies_sendSar (fun hnot => ?_) ht
    rw [hdereg] at hnot
    cases hnot
  · exact leaves_rejectWith (unwatched_identityMonitor cfg type) _

theorem identifies_processReceivedRegData (hstarts : Starts known irs) (htype : t.type = type)
    (himpi : known.impi = impiOr cfg t.impi irs.imsSubXml) :
    Leaves (identityMonitor cfg type) (Knows type) known (t.processReceivedRegData cfg irs) := by
  have hM := unwatched_identityMonitor cfg type
  have hnew : ∀ t' : ImpuRegDataTask, t'.impi = t.impi → t'.newBinding irs = true →
      known.impi ≠ "" := by
    intro t' ht' hbinding
    unfold newBinding at hbinding
    rw [ht'] at hbinding
    have hne : t.impi ≠ "" := by
      intro heq
      simp [heq] at hbinding
    rw [himpi, impiOr, if_neg hne]
    exact hne
  -- A request other than a registration adds no IMPI.
  have hadds : type ≠ .reg → ¬ known.AddsEmpty type := fun hne hadds => hne hadds.1
  have ht : Knows type { t with
      cachedRegState := irs.registrationState
      impi := if t.impi = "" then cfg.getPrivateId irs.imsSubXml else t.impi } known :=
    ⟨htype, himpi.symm⟩
  show Leaves _ _ known (if t.req.method = .get then _ else
    if t.type = .reg then _ else if t.type = .call then processCall cfg _ irs else
    if t.type.isDeregistrationRequest = true then processDereg cfg _ irs else
    if t.type.isAuthFailureRequest = true then _ else _)
  by_cases hmethod : t.req.method = .get
  · rw [if_pos hmethod]
    exact leaves_replyAndFinish hM
  rw [if_neg hmethod]
  by_cases hreg : t.type = .reg
  · rw [if_pos hreg]
    exact identifies_processReg hstarts (htype ▸ hreg) ht rfl (hnew _ rfl)
  rw [if_neg hreg]
  by_cases hcall : t.type = .call
  · rw [if_pos hcall]
    exact identifies_processCall hstarts (hadds (htype ▸ hreg)) ht
  rw [if_neg hcall]
  by_cases hdereg : t.type.isDeregistrationRequest = true
  · rw [if_pos hdereg]
    exact identifies_processDereg (htype ▸ hdereg) ht
  rw [if_neg hdereg]
  by_cases hauth : t.type.isAuthFailureRequest = true
  · rw [if_pos hauth]
    refine identifies_sendSar (fun _ hnot => ?_) ht
    rw [← htype, hauth] at hnot
    cases hnot
  · rw [if_neg hauth]
    exact leaves_finish hM

theorem identifies_getRegData (ht : t.Knows type known) :
    Leaves (identityMonitor cfg type) (Knows type) known (t.getRegData cfg) := by
  refine leaves_getRegData (unwatched_identityMonitor cfg type) (R := fun irs => irs.existing = true)
    (fun hs irs hran => ?_) (fun irs hexisting => ⟨trivial, ?_⟩)
    fun rc => ⟨trivial, fun ttl state => ?_⟩
  · obtain ⟨d, now, rfl⟩ := ran_getImplicitRegistrationSetForImpu_built hran
    rfl
  · refine identifies_processReceivedRegData (.inl ⟨rfl, hexisting⟩) ht.1 ?_
    rw [ht.2]
    rfl
  · refine identifies_processReceivedRegData (.inr ⟨rfl, ttl, state, rfl⟩) ht.1 ?_
    rw [ht.2]
    rfl

theorem keeps_run_identity (cfg : RegDataConfig) (req : HttpRequest) :
    (identityMonitor cfg (ofRequest cfg req).type).Keeps (fun _ _ => True)
      { impi := cfg.urlUnescape req.privateId } (run cfg req) :=
  keeps_run_of_leaves (unwatched_identityMonitor cfg _) (fun _ _ ht => identifies_getRegData ht)
    ⟨rfl, rfl⟩

end ImpuRegDataTask

/-- For every request of Sprout, every answer of the HSS and every run of the task: the IRS that the
task puts is written under a default IMPU that is a public identity of the document and not empty,
and no run of the put writes a mapping under an empty IMPI, if and only if

* the document of the SAA has an identity that is not barred, and the first such is not empty,
* a registration of a subscriber who is not registered has an IMPI, of the request or of the cached
  document, and
* neither the IRS that was found lists an empty IMPI, nor do the records that the put may merge. -/
theorem real_identities_iff (cfg : RegDataConfig) (req : HttpRequest) (S : String → Prop)
    (hs pre post : TaskHistory) (irs : Irs) (h : Begins (ImpuRegDataTask.run cfg req) hs)
    (hsplit : hs = pre ++ ⟨.addWork (.putIrs irs), ()⟩ :: post) :
    ∃ saa, (known cfg req pre).saa = some saa ∧
      ((irs.defaultImpu ≠ "" ∧ irs.defaultImpu ∈ cfg.px.getPublicIds saa.serviceProfile) ∧
          (∀ impi, MayMap S (cfg.cache.putImplicitRegistrationSet irs) impi → impi ≠ "") ↔
        NamesDefault cfg.px saa.serviceProfile ∧
          ¬ (known cfg req pre).AddsEmpty (ImpuRegDataTask.ofRequest cfg req).type ∧
          ∀ irs₀, (known cfg req pre).found = some irs₀ → "" ∉ irs₀.impis ∧ ¬ S "") := by
  have hputs : (known cfg req pre).Puts cfg.px (ImpuRegDataTask.ofRequest cfg req).type irs :=
    (ImpuRegDataTask.keeps_run_identity cfg req).begins h hsplit
  obtain ⟨⟨hexisting, hempty⟩, hrefreshed, saa, hsaa, hdefault⟩ := hputs
  refine ⟨saa, hsaa, ?_⟩
  rw [hdefault, getDefaultId_real_iff]
  refine and_congr_right fun _ => ?_
  -- The keys of the mappings are those that the IRS of the put brings with it, or finds stored.
  have hmapped : (∀ impi, MayMap S (cfg.cache.putImplicitRegistrationSet irs) impi → impi ≠ "") ↔
      ¬ ("" ∈ irs.impis ∨ irs.existing = true ∧ S "") := by
    constructor
    · intro hall hmay
      exact hall "" ((mayMap_put_iff cfg.cache hrefreshed "").mpr hmay) rfl
    · rintro hnot impi hmay rfl
      exact hnot ((mayMap_put_iff cfg.cache hrefreshed "").mp hmay)
  rw [hmapped, hempty, hexisting]
  cases hfound : (known cfg req pre).found with
  | none => simp
  | some irs₀ =>
    simp only [Option.some.injEq, Option.isSome_some, true_and]
    constructor
    · intro hnot
      refine ⟨fun hadds => hnot (.inl (.inr hadds)), ?_⟩
      rintro irs₁ rfl
      exact ⟨fun hmem => hnot (.inl (.inl ⟨irs₀, rfl, hmem⟩)), fun hS => hnot (.inr hS)⟩
    · rintro ⟨hadds, hreal⟩ ((⟨irs₁, rfl, hmem⟩ | hadds') | hS)
      · exact (hreal _ rfl).1 hmem
      · exact hadds hadds'
      · exact (hreal _ rfl).2 hS

/-! ### A document without an unbarred identity -/

/-- A registration of a subscriber who is not known, by the IMPI `impi`. -/
def registration (impi : String) : HttpRequest :=
  { exampleRequest with privateId := impi, body := "reg" }

/-- The deployment of the example, for registrations, with the parser `px` of documents. -/
def registering (px : XmlParser) : RegDataConfig :=
  { exampleConfig with
    px := px
    json := fun body => if body = "reg" then some (.object [("reqtype", .string "reg")]) else none }

def registeredAnswer : ServerAssignmentAnswer := { result := .success, serviceProfile := "profile" }

/-- The IRS that the registration puts. -/
def registeredIrs (px : XmlParser) (impi : String) : Irs :=
  ((((((Irs.new 0 .unknown).setRegState .notRegistered).setRegState .registered).addAssociatedImpi
    impi).setChargingAddresses {}).setImsSubXml px "profile").setTtl 7200

/-- The cache has no record, and the HSS answers with the document. -/
def beforePut (impi : String) : TaskHistory :=
  [⟨.addWork (.getIrsForImpu "sip:d@example.com"), ()⟩,
   ⟨.store (.getImpu 0 "sip:d@example.com"), (Status.notFound, (none : Option Impu))⟩,
   ⟨.callback (.onGetRegDataFailure .notFound), ()⟩,
   ⟨.createImplicitRegistrationSet, ((0 : Int), RegistrationState.unknown)⟩,
   ⟨.sendServerAssignmentRequest
      { impi := impi, impu := "sip:d@example.com", serverName := "sip:scscf.example.com",
        type := .registration, supportSharedIfcs := true, wildcardImpu := "" }, registeredAnswer⟩,
   ⟨.callback (.onSarResponse registeredAnswer), ()⟩]

/-- The document has one identity, which is not barred. -/
def openParser : XmlParser := .ofTable [("profile", ["sip:d@example.com"])]

/-- The document has one identity, which is barred. -/
def barredParser : XmlParser where
  parse _ := some { imsSubscription := some [{ publicIdentities :=
    [{ identity := some "sip:d@example.com", barringIndication := some "1" }] }] }
  parseExtensionIdentity uri _ := uri
  stateUnbarred := "0"

theorem begins_openPut : Begins (ImpuRegDataTask.run (registering openParser)
    (registration "impi@example.com")) (beforePut "impi@example.com" ++
      [⟨.addWork (.putIrs (registeredIrs openParser "impi@example.com")), ()⟩]) :=
  .unroll (.call (.call (.call (.call (.call (.call (.call (.nil _))))))))

theorem begins_barredPut : Begins (ImpuRegDataTask.run (registering barredParser) (registration ""))
    (beforePut "" ++ [⟨.addWork (.putIrs (registeredIrs barredParser "")), ()⟩]) :=
  .unroll (.call (.call (.call (.call (.call (.call (.call (.nil _))))))))

/-- A registration with an IMPI, for a document that is not barred, on stores whose records list
no empty IMPI. -/
theorem real_identities_iff_open :
    (registeredIrs openParser "impi@example.com").defaultImpu = "sip:d@example.com" ∧
      ¬ MayMap (fun impi => impi ≠ "") (oneStore.putImplicitRegistrationSet
        (registeredIrs openParser "impi@example.com")) "" := by
  obtain ⟨saa, hsaa, hiff⟩ := real_identities_iff (registering openParser)
    (registration "impi@example.com") (fun impi => impi ≠ "") _ _ [] _ begins_openPut rfl
  have hanswer : registeredAnswer = saa := Option.some.inj hsaa
  subst hanswer
  have hreal := hiff.mpr ⟨⟨"sip:d@example.com", rfl, by decide⟩,
    fun hadds => absurd hadds.2.2 (by decide), nofun⟩
  exact ⟨rfl, fun hmay => hreal.2 "" hmay rfl⟩

/-- A registration without an IMPI, for a document whose only identity is barred. The IRS is written
under an empty key, with a mapping under an empty IMPI. -/
theorem put_under_empty_key :
    Begins (ImpuRegDataTask.run (registering barredParser) (registration ""))
        (beforePut "" ++ [⟨.addWork (.putIrs (registeredIrs barredParser "")), ()⟩]) ∧
      (registeredIrs barredParser "").defaultImpu = "" ∧
      MayMap (fun impi => impi ≠ "")
        (oneStore.putImplicitRegistrationSet (registeredIrs barredParser "")) "" := by
  refine ⟨begins_barredPut, rfl, (mayMap_put_iff oneStore rfl "").mpr (.inl ?_)⟩
  rw [Std.ExtTreeMap.mem_iff_isSome_getElem?]
  rfl

end Homestead

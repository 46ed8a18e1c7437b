import Homestead.Model.HssConnection

/-!
# `Homestead.Proofs.CxMessages`: what a Cx message carries

* `cx_request_eq_iff`: two requests are the same message for the HSS exactly if they agree on the
  data that their kind of message carries. The getters of `cx.h` read it back (`reads_mar`,
  `reads_uar`, `reads_lir`, `reads_sar`).
* `hss_messages_read_back`: what the HSS puts into its own requests is what the tasks read, but for
  the charging addresses, where a condition on the numbers of addresses is exact.
-/

set_option autoImplicit false

namespace Homestead

open Avp CxAvpName

/-! ### Requests to the HSS -/

section Requests

variable (conn : DiameterHssConnection)

theorem reads_mar (r : MultimediaAuthRequest) :
    getStr userName (conn.multimediaAuthRequest r).avps = some r.impi ∧
    getStr publicIdentity (conn.multimediaAuthRequest r).avps = some r.impu ∧
    getStr serverName (conn.multimediaAuthRequest r).avps = some r.serverName ∧
    Cx.sipAuthScheme (conn.multimediaAuthRequest r).avps = r.scheme ∧
    Cx.sipAuthorization (conn.multimediaAuthRequest r).avps = r.authorization := by
  refine ⟨?_, ?_, ?_, ?_, ?_⟩
  all_goals
    simp [DiameterHssConnection.multimediaAuthRequest, Cx.multimediaAuthRequest, Cx.sipAuthScheme,
      Cx.sipAuthorization, Cx.authDataItem, getStr, getGroup]
  by_cases h : r.authorization = "" <;> simp [h]

theorem reads_uar (r : UserAuthRequest) :
    getStr userName (conn.userAuthRequest r).avps = some r.impi ∧
    getStr publicIdentity (conn.userAuthRequest r).avps = some r.impu ∧
    getStr visitedNetworkIdentifier (conn.userAuthRequest r).avps = some r.visitedNetwork ∧
    getInt userAuthorizationType (conn.userAuthRequest r).avps
      = some (Cx.userAuthorizationTypeCode r.authorizationType) ∧
    getInt uarFlags (conn.userAuthRequest r).avps = if r.emergency then some 1 else none := by
  refine ⟨?_, ?_, ?_, ?_, ?_⟩
  all_goals
    simp [DiameterHssConnection.userAuthRequest, Cx.userAuthorizationRequest, Cx.destination, getStr,
      getInt]
  cases r.emergency <;> simp

theorem reads_lir (r : LocationInfoRequest) :
    getStr publicIdentity (conn.locationInfoRequest r).avps = some r.impu ∧
    getInt originatingRequest (conn.locationInfoRequest r).avps
      = (if r.originating = "true" then some 0 else none) ∧
    getInt userAuthorizationType (conn.locationInfoRequest r).avps
      = if r.authorizationType = "CAPAB" then some 2 else none := by
  refine ⟨?_, ?_, ?_⟩
  all_goals
    simp [DiameterHssConnection.locationInfoRequest, Cx.locationInfoRequest, Cx.destination, getStr,
      getInt]
  · by_cases h : r.originating = "true" <;> simp [h]
  · by_cases h : r.authorizationType = "CAPAB" <;> simp [h]

/-- The wildcard that an SAR has room for. -/
def ServerAssignmentRequest.carriedWildcard (r : ServerAssignmentRequest) : String :=
  if Cx.includeWildcardOnSar r.type then r.wildcardImpu else ""

theorem reads_sar (r : ServerAssignmentRequest) :
    (getStr userName (conn.serverAssignmentRequest r).avps).getD "" = r.impi ∧
    getStr publicIdentity (conn.serverAssignmentRequest r).avps = some r.impu ∧
    getStr serverName (conn.serverAssignmentRequest r).avps = some r.serverName ∧
    getInt serverAssignmentType (conn.serverAssignmentRequest r).avps
      = some (Cx.serverAssignmentTypeCode r.type) ∧
    (getGroup supportedFeatures (conn.serverAssignmentRequest r).avps).isSome
      = r.supportSharedIfcs ∧
    (getStr wildcardedPublicIdentity (conn.serverAssignmentRequest r).avps).getD ""
      = r.carriedWildcard := by
  refine ⟨?_, ?_, ?_, ?_, ?_, ?_⟩
  all_goals
    simp [DiameterHssConnection.serverAssignmentRequest, Cx.serverAssignmentRequest, Cx.destination,
      getStr, getInt, getGroup]
  · by_cases h : r.impi = "" <;> simp [h]
  · cases r.supportSharedIfcs <;> simp
  · unfold ServerAssignmentRequest.carriedWildcard
    by_cases h : r.wildcardImpu = "" <;> cases Cx.includeWildcardOnSar r.type <;> simp [h]

theorem serverAssignmentTypeCode_inj {type type' : ServerAssignmentType}
    (h : Cx.serverAssignmentTypeCode type = Cx.serverAssignmentTypeCode type') : type = type' := by
  cases type <;> cases type' <;> first | rfl | cases h

theorem userAuthorizationTypeCode_eq_iff (s s' : String) :
    Cx.userAuthorizationTypeCode s = Cx.userAuthorizationTypeCode s' ↔
      (s = "DEREG" ↔ s' = "DEREG") ∧ (s = "CAPAB" ↔ s' = "CAPAB") := by
  unfold Cx.userAuthorizationTypeCode
  by_cases hd : s = "DEREG" <;> by_cases hd' : s' = "DEREG" <;> by_cases hc : s = "CAPAB" <;>
    by_cases hc' : s' = "CAPAB" <;> simp_all

theorem mar_eq_iff (r r' : MultimediaAuthRequest) :
    conn.multimediaAuthRequest r = conn.multimediaAuthRequest r' ↔ r = r' := by
  refine ⟨fun h => ?_, fun h => congrArg _ h⟩
  obtain ⟨himpi, himpu, hserver, hscheme, hauthorization⟩ := reads_mar conn r
  obtain ⟨himpi', himpu', hserver', hscheme', hauthorization'⟩ := reads_mar conn r'
  rw [h] at himpi himpu hserver hscheme hauthorization
  cases r
  cases r'
  congr
  · exact Option.some.inj (himpi.symm.trans himpi')
  · exact Option.some.inj (himpu.symm.trans himpu')
  · exact Option.some.inj (hserver.symm.trans hserver')
  · exact hscheme.symm.trans hscheme'
  · exact hauthorization.symm.trans hauthorization'

theorem uar_eq_iff (r r' : UserAuthRequest) :
    conn.userAuthRequest r = conn.userAuthRequest r' ↔
      r.impi = r'.impi ∧ r.impu = r'.impu ∧ r.visitedNetwork = r'.visitedNetwork ∧
      (r.authorizationType = "DEREG" ↔ r'.authorizationType = "DEREG") ∧
      (r.authorizationType = "CAPAB" ↔ r'.authorizationType = "CAPAB") ∧
      r.emergency = r'.emergency := by
  constructor
  · intro h
    obtain ⟨himpi, himpu, hvisited, htype, hflags⟩ := reads_uar conn r
    obtain ⟨himpi', himpu', hvisited', htype', hflags'⟩ := reads_uar conn r'
    rw [h] at himpi himpu hvisited htype hflags
    have hcodes := Option.some.inj (htype.symm.trans htype')
    obtain ⟨hdereg, hcapab⟩ := (userAuthorizationTypeCode_eq_iff _ _).mp hcodes
    refine ⟨Option.some.inj (himpi.symm.trans himpi'), Option.some.inj (himpu.symm.trans himpu'),
      Option.some.inj (hvisited.symm.trans hvisited'), hdereg, hcapab, ?_⟩
    have hemergency := hflags.symm.trans hflags'
    cases he : r.emergency <;> cases he' : r'.emergency <;> simp [he, he'] at hemergency ⊢
  · rintro ⟨himpi, himpu, hvisited, hdereg, hcapab, hemergency⟩
    have hcode := (userAuthorizationTypeCode_eq_iff _ _).mpr ⟨hdereg, hcapab⟩
    unfold DiameterHssConnection.userAuthRequest Cx.userAuthorizationRequest
    rw [himpi, himpu, hvisited, hcode, hemergency]

theorem lir_eq_iff (r r' : LocationInfoRequest) :
    conn.locationInfoRequest r = conn.locationInfoRequest r' ↔
      r.impu = r'.impu ∧ (r.originating = "true" ↔ r'.originating = "true") ∧
      (r.authorizationType = "CAPAB" ↔ r'.authorizationType = "CAPAB") := by
  constructor
  · intro h
    obtain ⟨himpu, horiginating, htype⟩ := reads_lir conn r
    obtain ⟨himpu', horiginating', htype'⟩ := reads_lir conn r'
    rw [h] at himpu horiginating htype
    refine ⟨Option.some.inj (himpu.symm.trans himpu'), ?_, ?_⟩
    · have h' := horiginating.symm.trans horiginating'
      by_cases ho : r.originating = "true" <;> by_cases ho' : r'.originating = "true" <;>
        simp [ho, ho'] at h' ⊢
    · have h' := htype.symm.trans htype'
      by_cases ht : r.authorizationType = "CAPAB" <;> by_cases ht' : r'.authorizationType = "CAPAB" <;>
        simp [ht, ht'] at h' ⊢
  · rintro ⟨himpu, horiginating, htype⟩
    unfold DiameterHssConnection.locationInfoRequest Cx.locationInfoRequest
    simp only [himpu, horiginating, htype]

theorem sar_eq_iff (r r' : ServerAssignmentRequest) :
    conn.serverAssignmentRequest r = conn.serverAssignmentRequest r' ↔
      r.impi = r'.impi ∧ r.impu = r'.impu ∧ r.serverName = r'.serverName ∧ r.type = r'.type ∧
      r.supportSharedIfcs = r'.supportSharedIfcs ∧ r.carriedWildcard = r'.carriedWildcard := by
  constructor
  · intro h
    obtain ⟨himpi, himpu, hserver, htype, hifcs, hwildcard⟩ := reads_sar conn r
    obtain ⟨himpi', himpu', hserver', htype', hifcs', hwildcard'⟩ := reads_sar conn r'
    rw [h] at himpi himpu hserver htype hifcs hwildcard
    exact ⟨himpi.symm.trans himpi', Option.some.inj (himpu.symm.trans himpu'),
      Option.some.inj (hserver.symm.trans hserver'),
      serverAssignmentTypeCode_inj (Option.some.inj (htype.symm.trans htype')),
      hifcs.symm.trans hifcs', hwildcard.symm.trans hwildcard'⟩
  · rintro ⟨himpi, himpu, hserver, htype, hifcs, hwildcard⟩
    -- Whether there is a wildcard, and which one, is read off the wildcard that is carried.
    have hcarried : ∀ q : ServerAssignmentRequest,
        addIf (q.wildcardImpu ≠ "" ∧ Cx.includeWildcardOnSar q.type = true)
          (.str wildcardedPublicIdentity rfl q.wildcardImpu : CxAvp)
        = addIf (q.carriedWildcard ≠ "") (.str wildcardedPublicIdentity rfl q.carriedWildcard) := by
      intro q
      unfold ServerAssignmentRequest.carriedWildcard
      cases Cx.includeWildcardOnSar q.type <;> simp [addIf]
    unfold DiameterHssConnection.serverAssignmentRequest Cx.serverAssignmentRequest
    rw [hcarried r, hcarried r', himpi, himpu, hserver, htype, hifcs, hwildcard]

end Requests

/-- A request carries its data to the HSS, and nothing else. An SAR has no wildcard unless its type
allows one. Of the type of a UAR the HSS sees which of three it is, and of an LIR whether it is
originating and whether it asks for capabilities. -/
theorem cx_request_eq_iff (conn : DiameterHssConnection) :
    (∀ r r' : MultimediaAuthRequest,
      conn.multimediaAuthRequest r = conn.multimediaAuthRequest r' ↔ r = r') ∧
    (∀ r r' : UserAuthRequest, conn.userAuthRequest r = conn.userAuthRequest r' ↔
      r.impi = r'.impi ∧ r.impu = r'.impu ∧ r.visitedNetwork = r'.visitedNetwork ∧
      (r.authorizationType = "DEREG" ↔ r'.authorizationType = "DEREG") ∧
      (r.authorizationType = "CAPAB" ↔ r'.authorizationType = "CAPAB") ∧
      r.emergency = r'.emergency) ∧
    (∀ r r' : LocationInfoRequest, conn.locationInfoRequest r = conn.locationInfoRequest r' ↔
      r.impu = r'.impu ∧ (r.originating = "true" ↔ r'.originating = "true") ∧
      (r.authorizationType = "CAPAB" ↔ r'.authorizationType = "CAPAB")) ∧
    (∀ r r' : ServerAssignmentRequest,
      conn.serverAssignmentRequest r = conn.serverAssignmentRequest r' ↔
      r.impi = r'.impi ∧ r.impu = r'.impu ∧ r.serverName = r'.serverName ∧ r.type = r'.type ∧
      r.supportSharedIfcs = r'.supportSharedIfcs ∧ r.carriedWildcard = r'.carriedWildcard) :=
  ⟨mar_eq_iff conn, uar_eq_iff conn, lir_eq_iff conn, sar_eq_iff conn⟩

/-! ### Messages of the HSS -/

/-- The numbers of charging addresses that a message has room for, with the second event charging
function tied to the second collection function. -/
def ChargingAddresses.Fits (addrs : ChargingAddresses) : Prop :=
  addrs.ccfs.length ≤ 2 ∧ addrs.ecfs.length ≤ 2 ∧ (addrs.ccfs.length = 2 ↔ addrs.ecfs.length = 2)

/-- The AVPs of a message without charging addresses. -/
def NoCharging (avps : List CxAvp) : Prop := first CxAvpName.chargingInformation avps = none

/-- The charging addresses of a message are read back exactly if they fit. -/
theorem chargingAddrs_eq_iff (addrs : ChargingAddresses) {before after : List CxAvp}
    (hbefore : NoCharging before) (hafter : NoCharging after) :
    ((Cx.chargingInformation addrs).map fun info =>
      (Cx.chargingAddrs (before ++ info ++ after)).1) = some addrs ↔ addrs.Fits := by
  obtain ⟨ccfs, ecfs⟩ := addrs
  unfold NoCharging at hbefore hafter
  unfold ChargingAddresses.Fits
  -- None, one, two or more addresses of each kind.
  rcases ccfs with _ | ⟨c₁, _ | ⟨c₂, _ | ⟨c₃, ccfs⟩⟩⟩ <;>
    rcases ecfs with _ | ⟨e₁, _ | ⟨e₂, _ | ⟨e₃, ecfs⟩⟩⟩ <;>
    simp [Cx.chargingInformation, Cx.chargingAddrs, getGroup, getStr, hbefore, hafter]

/-- A message says whether it has charging addresses. -/
theorem chargingAddrs_present {addrs : ChargingAddresses} {info : List CxAvp}
    (hinfo : Cx.chargingInformation addrs = some info) {before after : List CxAvp}
    (hbefore : NoCharging before) (hafter : NoCharging after) :
    (Cx.chargingAddrs (before ++ info ++ after)).2 = true ↔ ¬ (addrs.ccfs = [] ∧ addrs.ecfs = []) := by
  unfold NoCharging at hbefore hafter
  unfold Cx.chargingInformation at hinfo
  split at hinfo
  · rename_i hempty
    cases hinfo
    simp [Cx.chargingAddrs, getGroup, hbefore, hafter, hempty]
  · rename_i hempty
    split at hinfo
    · cases hinfo
    · cases hinfo
      simpa [Cx.chargingAddrs, getGroup, hbefore] using hempty

/-- Nothing is read from the message that the charging addresses could take away. -/
theorem getStr_around_chargingInformation {addrs : ChargingAddresses} {info : List CxAvp}
    (hinfo : Cx.chargingInformation addrs = some info) {k : CxAvpName}
    (hk : k ≠ CxAvpName.chargingInformation) (before after : List CxAvp) :
    getStr k (before ++ info ++ after) = getStr k (before ++ after) := by
  have hfirst : first k info = none := by
    unfold Cx.chargingInformation at hinfo
    split at hinfo
    · cases hinfo
      rfl
    · split at hinfo
      · cases hinfo
      · cases hinfo
        simp [hk.symm]
  simp [getStr, hfirst]

/-! Lists of identities and of capabilities. -/

@[simp] theorem first_strs (k k' : CxAvpName) (h : k'.kind = .str) (vs : List String) :
    first k (vs.map fun v => (.str k' h v : CxAvp))
      = if k' = k then vs.head?.map (.str k' h) else none :=
  first_map _ k' (fun _ => rfl) vs

@[simp] theorem first_ints (k k' : CxAvpName) (h : k'.kind = .int) (vs : List Int) :
    first k (vs.map fun v => (.int k' h v : CxAvp))
      = if k' = k then vs.head?.map (.int k' h) else none :=
  first_map _ k' (fun _ => rfl) vs

@[simp] theorem all_strs (k k' : CxAvpName) (h : k'.kind = .str) (vs : List String) :
    all k str? (vs.map fun v => (.str k' h v : CxAvp)) = if k' = k then vs else [] := by
  rw [all_map _ _ k' fun _ => rfl]
  simp

@[simp] theorem all_ints (k k' : CxAvpName) (h : k'.kind = .int) (vs : List Int) :
    all k int? (vs.map fun v => (.int k' h v : CxAvp)) = if k' = k then vs else [] := by
  rw [all_map _ _ k' fun _ => rfl]
  simp

/-- A Registration-Termination request. -/
theorem rtr_reads_back (rtr : Rtr) (sessionState : Int) :
    Rtr.ofAvps (Cx.registrationTerminationRequest rtr.deregistrationReason rtr.impi
      rtr.associatedIdentities rtr.impus sessionState).avps = rtr := by
  obtain ⟨reason, impi, identities, impus⟩ := rtr
  simp only [Rtr.ofAvps, Rtr.mk.injEq]
  refine ⟨?_, ?_, ?_, ?_⟩
  · simp [Cx.registrationTerminationRequest, Cx.deregistrationReason, Cx.associatedIdentitiesAvp,
      getGroup, getInt]
  · simp [Cx.registrationTerminationRequest, getStr]
  · simp [Cx.registrationTerminationRequest, Cx.associatedIdentities, Cx.associatedIdentitiesAvp,
      getGroup]
    by_cases h : identities = [] <;> simp [h]
  · simp [Cx.registrationTerminationRequest, Cx.impus, Cx.associatedIdentitiesAvp]

/-- The identities of a Registration-Termination answer. -/
theorem rta_reads_back (rtr : Rtr) (sessionState : Int) :
    Cx.associatedIdentities
      (Cx.registrationTerminationAnswer sessionState (RegistrationTerminationTask.impis rtr))
      = RegistrationTerminationTask.impis rtr := by
  simp [Cx.registrationTerminationAnswer, Cx.associatedIdentities, Cx.associatedIdentitiesAvp,
    RegistrationTerminationTask.impis, getGroup]

/-- A Push-Profile request. -/
theorem ppr_reads_back_iff (impi xml : String) (addrs : ChargingAddresses) (sessionState : Int) :
    ((Cx.pushProfileRequest impi xml addrs sessionState).map fun m => Ppr.ofAvps m.avps)
      = some { impi := impi, userData := if xml = "" then none else some xml,
               chargingAddrs := if addrs.ccfs = [] ∧ addrs.ecfs = [] then none else some addrs } ↔
    addrs.Fits := by
  let before : List CxAvp := [.str userName rfl impi] ++ addIf (xml ≠ "") (.str userData rfl xml) ++
    [.int authSessionState rfl sessionState]
  have hbefore : NoCharging before := by simp [NoCharging, before]
  have hiff := chargingAddrs_eq_iff addrs hbefore (show NoCharging [] from rfl)
  simp only [List.append_nil] at hiff
  unfold Cx.pushProfileRequest
  cases hinfo : Cx.chargingInformation addrs with
  | none => simpa [hinfo] using hiff
  | some info =>
    have himpi : getStr userName (before ++ info) = some impi := by
      have h := getStr_around_chargingInformation hinfo (k := userName) (by decide) before []
      simp only [List.append_nil] at h
      rw [h]
      simp [before, getStr]
    have hxml : getStr userData (before ++ info) = if xml = "" then none else some xml := by
      have h := getStr_around_chargingInformation hinfo (k := userData) (by decide) before []
      simp only [List.append_nil] at h
      rw [h]
      by_cases hxml : xml = "" <;> simp [before, getStr, hxml]
    have hpresent := chargingAddrs_present hinfo hbefore (show NoCharging [] from rfl)
    rw [List.append_nil] at hpresent
    simp only [hinfo, Option.map_some, Option.some.injEq] at hiff ⊢
    rw [← hiff]
    show Ppr.ofAvps (before ++ info) = _ ↔ _
    rw [Ppr.ofAvps, himpi, hxml]
    by_cases hempty : addrs.ccfs = [] ∧ addrs.ecfs = []
    · have habsent : (Cx.chargingAddrs (before ++ info)).2 = false := by simpa [hempty] using hpresent
      have hfits : addrs.Fits := by simp [ChargingAddresses.Fits, hempty]
      simp [hempty, habsent, hiff.mpr hfits]
    · have htrue := hpresent.mpr hempty
      simp [hempty, htrue]

/-- A Server-Assignment answer, as the connection passes it on. -/
theorem saa_reads_back_iff (vendor : Nat) (experimental : Int) (xml wildcard : String)
    (addrs : ChargingAddresses) :
    ((Cx.serverAssignmentAnswer diameterSuccess vendor experimental xml addrs wildcard).map
      DiameterHssConnection.serverAssignmentAnswer)
      = some { result := .success, chargingAddresses := addrs, serviceProfile := xml } ↔
    addrs.Fits := by
  let before : List CxAvp := [.str userData rfl xml]
  let after : List CxAvp :=
    addIf (wildcard ≠ "") (.str wildcardedPublicIdentity rfl wildcard)
  have hbefore : NoCharging before := by simp [NoCharging, before]
  have hafter : NoCharging after := by simp [NoCharging, after]
  rw [← chargingAddrs_eq_iff addrs hbefore hafter]
  unfold Cx.serverAssignmentAnswer
  cases hinfo : Cx.chargingInformation addrs with
  | none => simp
  | some info =>
    have hxml : getStr userData (before ++ info ++ after) = some xml := by
      rw [getStr_around_chargingInformation hinfo (by decide)]
      simp [before, getStr]
    rw [List.append_assoc] at hxml
    show some (DiameterHssConnection.serverAssignmentAnswer
      (.withResult diameterSuccess vendor experimental (before ++ info ++ after))) = _ ↔ _
    simp [DiameterHssConnection.serverAssignmentAnswer, CxMessage.withResult, diameterSuccess, hxml]

@[simp] theorem name_serverCapabilitiesAvp (capabs : ServerCapabilities) :
    (Cx.serverCapabilitiesAvp capabs).name = CxAvpName.serverCapabilities := rfl

/-- The capabilities of an answer. -/
theorem capabilities_read_back (capabs : ServerCapabilities) {before : List CxAvp}
    (hbefore : first CxAvpName.serverCapabilities before = none) (after : List CxAvp) :
    Cx.serverCapabilities (before ++ [Cx.serverCapabilitiesAvp capabs] ++ after) = capabs := by
  obtain ⟨mandatory, optionals, server⟩ := capabs
  simp [Cx.serverCapabilities, getGroup, hbefore, Cx.serverCapabilitiesAvp]
  by_cases h : server = "" <;> simp [getStr, h]

/-- A User-Authorization answer. The capabilities stand in for a server name. -/
theorem uaa_reads_back (vendor : Nat) (experimental : Int) (server : String)
    (capabs : ServerCapabilities) :
    DiameterHssConnection.userAuthAnswer
      (Cx.userAuthorizationAnswer diameterSuccess vendor experimental server capabs)
      = { result := .success, jsonResult := diameterSuccess, serverName := server,
          serverCapabilities := if server = "" then capabs else {} } := by
  have hcapabs := capabilities_read_back capabs (show first CxAvpName.serverCapabilities [] = none from rfl) []
  by_cases h : server = ""
  · simp at hcapabs
    simp [DiameterHssConnection.userAuthAnswer, Cx.userAuthorizationAnswer, CxMessage.withResult,
      DiameterHssConnection.jsonResult, DiameterHssConnection.capabilities, diameterSuccess, getStr,
      addIf, h, hcapabs]
  · simp [DiameterHssConnection.userAuthAnswer, Cx.userAuthorizationAnswer, CxMessage.withResult,
      DiameterHssConnection.jsonResult, DiameterHssConnection.capabilities, diameterSuccess, getStr, h]

/-- A Location-Info answer. -/
theorem lia_reads_back (vendor : Nat) (experimental : Int) (server wildcard : String)
    (capabs : ServerCapabilities) :
    DiameterHssConnection.locationInfoAnswer
      (Cx.locationInfoAnswer diameterSuccess vendor experimental server capabs wildcard)
      = { result := .success, jsonResult := diameterSuccess, serverName := server,
          serverCapabilities := if server = "" then capabs else {}, wildcardImpu := wildcard } := by
  have hcapabs := capabilities_read_back capabs (show first CxAvpName.serverCapabilities [] = none from rfl)
    (addIf (wildcard ≠ "") (.str wildcardedPublicIdentity rfl wildcard))
  by_cases h : server = "" <;> by_cases hw : wildcard = "" <;>
    simp [hw, addIf] at hcapabs <;>
    simp [DiameterHssConnection.locationInfoAnswer, Cx.locationInfoAnswer, CxMessage.withResult,
      DiameterHssConnection.jsonResult, DiameterHssConnection.capabilities, diameterSuccess, getStr,
      addIf, h, hw, hcapabs]

/-- The AKA vector that the tasks get for one that the HSS sends. -/
def DiameterHssConnection.encoded (conn : DiameterHssConnection) (av : AkaAuthVector)
    (version : Int) : AkaAuthVector where
  challenge := conn.base64Encode av.challenge
  response := conn.hex av.response
  cryptKey := conn.hex av.cryptKey
  integrityKey := conn.hex av.integrityKey
  version := version

/-- A Multimedia-Auth answer has both kinds of vectors, and the scheme decides which one is used. -/
theorem maa_reads_back (conn : DiameterHssConnection) (vendor : Nat) (experimental : Int)
    (scheme : String) (digestAv : DigestAuthVector) (akaAv : AkaAuthVector) :
    conn.multimediaAuthAnswer
      (Cx.multimediaAuthAnswer diameterSuccess vendor experimental scheme digestAv akaAv)
      = if scheme = conn.schemes.digest then
          { result := .success, authVector := some (.digest digestAv), sipAuthScheme := scheme }
        else if scheme = conn.schemes.akav1 then
          { result := .success, authVector := some (.aka (conn.encoded akaAv 1)),
            sipAuthScheme := scheme }
        else if scheme = conn.schemes.akav2 then
          { result := .success, authVector := some (.aka (conn.encoded akaAv 2)),
            sipAuthScheme := scheme }
        else { result := .unknownAuthScheme, sipAuthScheme := scheme } := by
  generalize hm : Cx.multimediaAuthAnswer diameterSuccess vendor experimental scheme digestAv akaAv = m
  have hresult : m.resultCode = diameterSuccess := by subst hm; rfl
  have hscheme : Cx.sipAuthScheme m.avps = scheme := by
    subst hm
    by_cases h : scheme = "" <;>
      simp [Cx.multimediaAuthAnswer, CxMessage.withResult, diameterSuccess, Cx.sipAuthScheme,
        Cx.authDataItem, getGroup, getStr, h]
  have hdigest : Cx.digestAuthVector m.avps = digestAv := by
    subst hm
    simp [Cx.multimediaAuthAnswer, CxMessage.withResult, diameterSuccess, Cx.digestAuthVector, getGroup,
      getStr]
  have haka : Cx.akaAuthVector conn.base64Encode conn.hex m.avps = conn.encoded akaAv 1 := by
    subst hm
    simp [Cx.multimediaAuthAnswer, CxMessage.withResult, diameterSuccess, Cx.akaAuthVector,
      Cx.authDataItem, getGroup, getStr, DiameterHssConnection.encoded]
  unfold DiameterHssConnection.multimediaAuthAnswer Cx.akav2AuthVector
  rw [if_pos hresult, hscheme, hdigest, haka]
  rfl

/-- What an HSS writes is what the tasks get. For the charging addresses the numbers of addresses
have to fit, and the condition is exact. -/
theorem hss_messages_read_back (conn : DiameterHssConnection) (vendor : Nat) (experimental : Int) :
    (∀ rtr sessionState, Rtr.ofAvps (Cx.registrationTerminationRequest rtr.deregistrationReason rtr.impi
      rtr.associatedIdentities rtr.impus sessionState).avps = rtr) ∧
    (∀ rtr sessionState, Cx.associatedIdentities (Cx.registrationTerminationAnswer sessionState
      (RegistrationTerminationTask.impis rtr)) = RegistrationTerminationTask.impis rtr) ∧
    (∀ impi xml addrs sessionState,
      ((Cx.pushProfileRequest impi xml addrs sessionState).map fun m => Ppr.ofAvps m.avps)
        = some { impi := impi, userData := if xml = "" then none else some xml,
                 chargingAddrs := if addrs.ccfs = [] ∧ addrs.ecfs = [] then none else some addrs } ↔
      addrs.Fits) ∧
    (∀ xml wildcard addrs,
      ((Cx.serverAssignmentAnswer diameterSuccess vendor experimental xml addrs wildcard).map
        DiameterHssConnection.serverAssignmentAnswer)
        = some { result := .success, chargingAddresses := addrs, serviceProfile := xml } ↔
      addrs.Fits) ∧
    (∀ server capabs, DiameterHssConnection.userAuthAnswer
      (Cx.userAuthorizationAnswer diameterSuccess vendor experimental server capabs)
        = { result := .success, jsonResult := diameterSuccess, serverName := server,
            serverCapabilities := if server = "" then capabs else {} }) ∧
    (∀ server wildcard capabs, DiameterHssConnection.locationInfoAnswer
      (Cx.locationInfoAnswer diameterSuccess vendor experimental server capabs wildcard)
        = { result := .success, jsonResult := diameterSuccess, serverName := server,
            serverCapabilities := if server = "" then capabs else {}, wildcardImpu := wildcard }) ∧
    (∀ scheme digestAv akaAv, conn.multimediaAuthAnswer
      (Cx.multimediaAuthAnswer diameterSuccess vendor experimental scheme digestAv akaAv)
        = if scheme = conn.schemes.digest then
            { result := .success, authVector := some (.digest digestAv), sipAuthScheme := scheme }
          else if scheme = conn.schemes.akav1 then
            { result := .success, authVector := some (.aka (conn.encoded akaAv 1)),
              sipAuthScheme := scheme }
          else if scheme = conn.schemes.akav2 then
            { result := .success, authVector := some (.aka (conn.encoded akaAv 2)),
              sipAuthScheme := scheme }
          else { result := .unknownAuthScheme, sipAuthScheme := scheme }) :=
  ⟨rtr_reads_back, rta_reads_back, ppr_reads_back_iff,
    fun xml wildcard addrs => saa_reads_back_iff vendor experimental xml wildcard addrs,
    uaa_reads_back vendor experimental,
    fun server wildcard capabs => lia_reads_back vendor experimental server wildcard capabs,
    maa_reads_back conn vendor experimental⟩

end Homestead

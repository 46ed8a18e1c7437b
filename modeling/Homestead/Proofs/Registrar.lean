import Homestead.Proofs.FailedPut
import Homestead.Proofs.NodeRuns

/-!
# `Homestead.Proofs.Registrar`: the reg-data interface is a registrar

A node handles reg-data requests in turn. `Node.Sound` is the invariant between two requests: all
the stores of the node hold the same registrations, and the HSS tells the truth about the
subscribers. `registrar_refinement` is the main result: whatever the requests are, each of them is a
`RegistrarStep` on the table that the records stand for, with the same SARs and replies, and the
invariant is kept.

* `Irs.Prepared`: the IRS of a request may be put for its subscriber after the SAA.
* `endsWith_put`, `endsWith_delete`, `endsWith_none`: the three things that an SAA leads to.
* `serves_run`: one request.
-/

set_option autoImplicit false

namespace Homestead

/-! ### The HSS -/

/-- The public identity that an SAR is about. -/
def ServerAssignmentRequest.publicId (request : ServerAssignmentRequest) : String :=
  if request.wildcardImpu = "" then request.impu else request.wildcardImpu

/-- The SAR assigns the subscriber to this node, so that its answer has the profile. -/
def ServerAssignmentType.Assigns : ServerAssignmentType → Prop
  | .registration | .reRegistration | .unregisteredUser => True
  | _ => False

/-- The answer names no other wildcard than the one in use, and the profile that it has is that of
the subscriber that was asked for. -/
structure Truthful (dir : Directory) (px : XmlParser) (request : ServerAssignmentRequest)
    (saa : ServerAssignmentAnswer) : Prop where
  notRenamed : saa.result = .newWildcard → saa.wildcardImpu = request.wildcardImpu
  describes : saa.result = .success → request.type.Assigns →
    ∃ D, dir.defaultOf request.publicId = some D ∧ dir.Describes px saa.serviceProfile D

/-- The table that the records of the node stand for. -/
def Node.table (cfg : RegDataConfig) (n : Node) : Table :=
  (n.world.stores cfg.cache.localStore).table

/-- The invariant of a node between two requests. The HSS is asked with one of the `wildcards`, or
with the empty string for none. -/
structure Node.Sound (cfg : RegDataConfig) (dir : Directory) (wildcards : Set String) (n : Node) :
    Prop where
  inSync : cfg.cache.InSync dir n.world (n.table cfg)
  truthful : ∀ i request, request.wildcardImpu ∈ wildcards →
    Truthful dir cfg.px request ((n.outside i).saa request)

theorem Node.After.table_eq {cfg : RegDataConfig} {dir : Directory} {n n' : Node} {w : World}
    {seen : List Observation} {tbl : Table} (h : n.After w seen n')
    (hsync : cfg.cache.InSync dir w tbl) :
    n'.table cfg = tbl := by
  rw [Node.table, h.world]
  exact hsync.localStore.table

theorem Node.Sound.after {cfg : RegDataConfig} {dir : Directory} {wildcards : Set String}
    {n n' : Node} {w : World} {seen : List Observation} {tbl : Table}
    (h : n.Sound cfg dir wildcards)
    (hafter : n.After w seen n') (hsync : cfg.cache.InSync dir w tbl) :
    n'.Sound cfg dir wildcards where
  inSync := by
    rw [hafter.table_eq hsync, hafter.world]
    exact hsync
  truthful i request hwildcard := by
    obtain ⟨k, hk⟩ := hafter.outside
    rw [hk]
    exact h.truthful _ _ hwildcard

/-! ### The IRS of a request -/

/-- The IRS with the answer of the HSS, as `on_sar_response` puts it. -/
def Irs.withAnswer (irs : Irs) (px : XmlParser) (saa : ServerAssignmentAnswer) (ttl : Int) : Irs :=
  ((irs.setChargingAddresses saa.chargingAddresses).setImsSubXml px saa.serviceProfile).setTtl ttl

/-- The IRS before the answer of the HSS: new, or as it was read, but for the registration state
and for IMPIs that were added. -/
structure Irs.Prepared (irs : Irs) (dir : Directory) (D : String)
    (r? : Option Registration) : Prop where
  associated : ∀ (k : String) state, irs.associatedImpus[k]? = some state →
    state = .unchanged ∧ k ≠ D ∧ dir.defaultOf k = some D
  notDeleted : ∀ impi : String, irs.impis[impi]? ≠ some .deleted
  source : (irs.existing = true ∧ ∃ r, r? = some r ∧ irs.Follows r) ∨
    irs.existing = false ∧ r? = none

section Prepared

variable {dir : Directory} {D : String} {irs : Irs} {r? : Option Registration}

/-- The new IRS of a subscriber without a registration. -/
theorem prepared_new (ttl : Int) (state : RegistrationState) :
    (Irs.new ttl state).Prepared dir D none where
  associated k st hk := by
    have hk : (∅ : Data)[k]? = some st := hk
    rw [Std.ExtTreeMap.getElem?_empty] at hk
    cases hk
  notDeleted impi := by
    show (∅ : Data)[impi]? ≠ some .deleted
    rw [Std.ExtTreeMap.getElem?_empty]
    simp
  source := .inr ⟨rfl, rfl⟩

theorem Irs.Follows.setRegState {r : Registration} (h : irs.Follows r) (state : RegistrationState) :
    (irs.setRegState state).Follows r :=
  ⟨h.keeps, h.unchanged, fun hset => Bool.noConfusion hset, h.imsSubXml, h.chargingAddresses⟩

theorem Irs.Follows.addAssociatedImpi {r : Registration} (h : irs.Follows r) (impi : String) :
    (irs.addAssociatedImpi impi).Follows r := by
  have hget : ∀ k : String, (irs.addAssociatedImpi impi).impis[k]?
      = if k = impi then some .added else irs.impis[k]? := fun k => Data.getElem?_insert _ _ _ _
  refine ⟨fun k hk => ?_, fun k hk => ?_, h.registrationState, h.imsSubXml, h.chargingAddresses⟩
  · rw [hget]
    split
    · simp
    · exact h.keeps k hk
  · rw [hget] at hk
    split at hk
    · cases hk
    · exact h.unchanged k hk

theorem Irs.Prepared.setRegState (h : irs.Prepared dir D r?) (state : RegistrationState) :
    (irs.setRegState state).Prepared dir D r? := by
  refine ⟨h.associated, h.notDeleted, ?_⟩
  rcases h.source with ⟨hexisting, r, hr, hfollows⟩ | hnew
  · exact .inl ⟨hexisting, r, hr, hfollows.setRegState state⟩
  · exact .inr hnew

theorem Irs.Prepared.addAssociatedImpi (h : irs.Prepared dir D r?) (impi : String) :
    (irs.addAssociatedImpi impi).Prepared dir D r? := by
  refine ⟨h.associated, fun k => ?_, ?_⟩
  · rw [show (irs.addAssociatedImpi impi).impis[k]? = if k = impi then some .added else irs.impis[k]?
      from Data.getElem?_insert _ _ _ _]
    split
    · simp
    · exact h.notDeleted k
  · rcases h.source with ⟨hexisting, r, hr, hfollows⟩ | hnew
    · exact .inl ⟨hexisting, r, hr, hfollows.addAssociatedImpi impi⟩
    · exact .inr hnew

/-- The IRS was read from a record of the subscriber `D`, which stands for `r`. Its registration
state may have been set. -/
structure Irs.ReadFor (irs : Irs) (dir : Directory) (D : String) (r : Registration) : Prop where
  associated : ∀ k : String, irs.associatedImpus[k]?
    = if k ≠ D ∧ dir.defaultOf k = some D then some .unchanged else none
  notDeleted : ∀ impi : String, irs.impis[impi]? ≠ some .deleted
  existing : irs.existing = true
  follows : irs.Follows r
  defaultImpu : irs.defaultImpu = D
  profile : irs.imsSubXml = r.profile
  impis : ∀ impi, impi ∈ irs.getAssociatedImpis ↔ impi ∈ r.impis

theorem Irs.ReadFor.setRegState {r : Registration} (h : irs.ReadFor dir D r)
    (state : RegistrationState) : (irs.setRegState state).ReadFor dir D r :=
  ⟨h.associated, h.notDeleted, h.existing, h.follows.setRegState state, h.defaultImpu, h.profile,
    h.impis⟩

theorem Irs.ReadFor.prepared {r : Registration} (h : irs.ReadFor dir D r) :
    irs.Prepared dir D (some r) := by
  refine ⟨fun k state hk => ?_, h.notDeleted, .inl ⟨h.existing, r, rfl, h.follows⟩⟩
  rw [h.associated] at hk
  split at hk
  · rename_i hdir
    cases hk
    exact ⟨rfl, hdir⟩
  · cases hk

theorem Irs.ReadFor.covers {r : Registration} (h : irs.ReadFor dir D r) :
    irs.Covers dir D (some r) := by
  refine ⟨h.defaultImpu, fun k hne hdir => ?_, fun r' hr' => ?_⟩
  · rw [h.associated, if_pos ⟨hne, hdir⟩]
    simp
  · cases hr'
    exact h.follows.keeps

/-- The IRS of a record. -/
theorem readFor_ofDefaultImpu {st : ImpuStore} (hcons : Consistent dir st) {d : DefaultImpuData}
    (hd : st.defaultAt D = some d) (cas : Nat) (s : StoreId) (now : Int) :
    (Irs.ofDefaultImpu (d.fromData D cas s) now).ReadFor dir D d.registration := by
  have himpis : ∀ impi : String, (Irs.ofDefaultImpu (d.fromData D cas s) now).impis[impi]?
      = if impi ∈ d.impis then some .unchanged else none := fun impi => Data.getElem?_ofStored _ _
  refine ⟨fun k => ?_, fun impi => ?_, rfl, ⟨fun impi himpi => ?_, fun impi hstate => ?_,
    fun _ => rfl, fun _ => rfl, fun _ => rfl⟩, rfl, rfl, fun _ => Data.mem_present_ofStored⟩
  · show (Data.ofStored d.assocImpu)[k]? = _
    simp only [Data.getElem?_ofStored, (hcons.listed D d hd).2 k]
  · rw [himpis]
    split <;> simp
  · rw [himpis, if_pos (show impi ∈ d.impis from himpi)]
    simp
  · rw [himpis] at hstate
    split at hstate
    · rename_i himpi
      exact himpi
    · cases hstate

/-- The registration state of a record is one of two. -/
theorem registrationState_ofDefaultImpu (d : DefaultImpuData) (D : String) (cas : Nat) (s : StoreId)
    (now : Int) :
    ((Irs.ofDefaultImpu (d.fromData D cas s) now).registrationState = .registered ↔
      d.registration.registered = true) ∧
    (Irs.ofDefaultImpu (d.fromData D cas s) now).registrationState ≠ .notRegistered := by
  cases hstate : d.registrationState <;>
    simp [Irs.ofDefaultImpu, DefaultImpuData.fromData, DefaultImpuData.registration, hstate]

/-- A document of the subscriber names the identities to track. -/
theorem Irs.Prepared.setImsSubXml (h : irs.Prepared dir D r?) {px : XmlParser} {xml : String}
    (hxml : dir.Describes px xml D) : (irs.setImsSubXml px xml).TracksAll dir D := by
  have hget : ∀ k : String, (irs.setImsSubXml px xml).associatedImpus[k]?
        = if dir.defaultOf k = some D then
            if k ≠ D ∧ irs.associatedImpus[k]? ≠ some .unchanged then some .added
            else irs.associatedImpus[k]?
          else irs.associatedImpus[k]?.map fun _ => .deleted := by
    intro k
    simp only [← hxml.publicIds]
    rw [← hxml.defaultId]
    exact Data.getElem?_setElements _ _ _ _
  have hnone : ∀ k, k = D ∨ dir.defaultOf k ≠ some D → irs.associatedImpus[k]? = none := by
    intro k hk
    cases hstate : irs.associatedImpus[k]? with
    | none => rfl
    | some state =>
      obtain ⟨-, hne, hdir⟩ := h.associated k state hstate
      rcases hk with hk | hk
      · exact absurd hk hne
      · exact absurd hdir hk
  refine ⟨hxml.defaultId, fun k hne hdir => ?_, fun k hk => ?_⟩
  · rw [hget, if_pos hdir]
    by_cases hunchanged : irs.associatedImpus[k]? = some .unchanged
    · rw [if_neg (by simp [hunchanged])]
      exact .inr hunchanged
    · rw [if_pos ⟨hne, hunchanged⟩]
      exact .inl rfl
  · rw [hget, hnone k hk]
    split
    · rename_i hdir
      rcases hk with rfl | hk
      · simp
      · exact absurd hdir hk
    · rfl

/-- After the answer of the HSS the IRS may be put. -/
theorem Irs.Prepared.putsFor (h : irs.Prepared dir D r?) {px : XmlParser}
    {saa : ServerAssignmentAnswer} (hxml : dir.Describes px saa.serviceProfile D) (ttl : Int) :
    (irs.withAnswer px saa ttl).PutsFor dir D r? := by
  have htracks := h.setImsSubXml hxml
  refine ⟨⟨htracks.defaultImpu, htracks.tracked, htracks.untracked⟩, h.notDeleted, ?_⟩
  rcases h.source with ⟨hexisting, r, hr, hfollows⟩ | ⟨hexisting, hnone⟩
  · exact .inl ⟨hexisting, r, hr, hfollows.keeps, hfollows.unchanged, hfollows.registrationState,
      fun hset => Bool.noConfusion hset, fun hset => Bool.noConfusion hset⟩
  · exact .inr ⟨hexisting, rfl, hnone⟩

end Prepared

/-! ### The answer of the HSS -/

namespace ImpuRegDataTask

variable {cfg : RegDataConfig} {dir : Directory} {wildcards : Set String}

/-- What a request with an SAA ends with: the reply, and the table `tbl'`. -/
def EndsWith (cfg : RegDataConfig) (dir : Directory) (n : Node) (p : TaskProg (Option ImpuRegDataTask))
    (rc : HttpCode) (tbl' : Table) : Prop :=
  ∃ n' w reply, Eval serveTask p n none n' ∧ n.After w [reply] n' ∧ IsReply rc reply ∧
    cfg.cache.InSync dir w tbl'

/-- The answer assigns the subscriber: the IRS is put. -/
theorem endsWith_put (hdistinct : cfg.cache.stores.Nodup) {n : Node}
    (hn : n.Sound cfg dir wildcards) {irs : Irs} {D : String} (hD : dir.defaultOf D = some D)
    (hprepared : irs.Prepared dir D (n.table cfg D)) {saa : ServerAssignmentAnswer}
    (hxml : dir.Describes cfg.px saa.serviceProfile D) (hsuccess : saa.result = .success)
    {t : ImpuRegDataTask} (htype : t.type = .reg ∨ t.type = .call) :
    EndsWith cfg dir n (t.updateCache cfg irs saa) t.httpRc
      (Function.update (n.table cfg) D (some (saa.registration
        (decide (irs.registrationState = .registered)) {impi | impi ∈ irs.getAssociatedImpis}))) := by
  have hids : (cfg.px.getPublicAndDefaultIds
      (irs.withAnswer cfg.px saa cfg.recordTtl).imsSubXml "").1 ≠ [] :=
    List.ne_nil_of_mem ((hxml.publicIds D).mpr hD)
  obtain ⟨n', w, reply, hrun, hafter, hreply, hsync⟩ := eval_putInCache hdistinct hids
    (by simp [Irs.hasChanged, Irs.withAnswer, Irs.setTtl]) hD (hprepared.putsFor hxml cfg.recordTtl)
    hn.inSync t
  refine ⟨n', w, reply, ?_, hafter, hreply, hsync⟩
  unfold updateCache
  rw [if_pos]
  · exact hrun
  · rcases htype with htype | htype <;>
      simp [hsuccess, htype, RequestType.isDeregistrationRequest, RequestType.isAuthFailureRequest]

/-- The registration ends: the IRS is deleted. -/
theorem endsWith_delete (hdistinct : cfg.cache.stores.Nodup) {n : Node}
    (hn : n.Sound cfg dir wildcards)
    {irs : Irs} {D : String} (hD : dir.defaultOf D = some D) (hexisting : irs.existing = true)
    (hcovers : irs.Covers dir D (n.table cfg D)) {saa : ServerAssignmentAnswer}
    (hreached : saa.result ≠ .serverUnavailable) {t : ImpuRegDataTask}
    (htype : t.type.isDeregistrationRequest = true) :
    EndsWith cfg dir n (t.updateCache cfg irs saa) t.httpRc
      (Function.update (n.table cfg) D none) := by
  obtain ⟨n', w, reply, hrun, hafter, hreply, hsync⟩ :=
    eval_deleteFromCache hdistinct hexisting hD hcovers hn.inSync t
  refine ⟨n', w, reply, ?_, hafter, hreply, hsync⟩
  unfold updateCache
  rw [if_neg (by simp [htype]), if_pos ⟨htype, hreached⟩]
  exact hrun

/-- Any other answer changes nothing. -/
theorem endsWith_none {n : Node} (hn : n.Sound cfg dir wildcards) (irs : Irs) (saa : ServerAssignmentAnswer)
    (t : ImpuRegDataTask)
    (hput : saa.result = .success → t.type.isAuthFailureRequest = true ∨
      t.type.isDeregistrationRequest = true)
    (hdelete : t.type.isDeregistrationRequest = true → saa.result = .serverUnavailable) :
    EndsWith cfg dir n (t.updateCache cfg irs saa) t.httpRc (n.table cfg) := by
  obtain ⟨n', reply, hrun, hafter, hreply⟩ := t.eval_replyAndFinish n
  refine ⟨n', n.world, reply, ?_, hafter, hreply, hn.inSync⟩
  unfold updateCache
  rw [if_neg, if_neg]
  · exact hrun
  · rintro ⟨htype, hne⟩
    exact hne (hdelete htype)
  · rintro ⟨hsuccess, hdereg, hauth⟩
    exact (hput hsuccess).elim hauth hdereg

/-- `on_sar_response`, when the HSS does not rename the wildcard. -/
theorem endsWith_onSarResponse {n : Node} {irs : Irs} {saa : ServerAssignmentAnswer}
    {t : ImpuRegDataTask} (hrc : t.httpRc = httpOk)
    (hnotRenamed : saa.result = .newWildcard → saa.wildcardImpu = t.wildcardId) {tbl' : Table}
    (hends : ∀ t' : ImpuRegDataTask, t'.type = t.type → t'.httpRc = saa.result.httpCode →
      EndsWith cfg dir n (t'.updateCache cfg irs saa) saa.result.httpCode tbl') :
    EndsWith cfg dir n (t.onSarResponse cfg irs saa) saa.result.httpCode tbl' := by
  suffices h : ∃ t' : ImpuRegDataTask, t'.type = t.type ∧ t'.httpRc = saa.result.httpCode ∧
      ∀ n', Eval serveTask (t'.updateCache cfg irs saa) n none n' →
        Eval serveTask (t.onSarResponse cfg irs saa) n none n' by
    obtain ⟨t', htype, hrc', hrun⟩ := h
    obtain ⟨n', w, reply, he, hrest⟩ := hends t' htype hrc'
    exact ⟨n', w, reply, hrun n' he, hrest⟩
  unfold onSarResponse
  cases hresult : saa.result with
  | success => exact ⟨t, rfl, hrc, fun n' he => .call he⟩
  | newWildcard =>
    refine ⟨{ t with hssWildcard := saa.wildcardImpu, httpRc := httpServerError }, rfl, rfl,
      fun n' he => .call ?_⟩
    show Eval serveTask (if t.wildcardId = saa.wildcardImpu then _ else _) _ _ _
    rw [if_pos (hnotRenamed hresult).symm]
    exact he
  | timeout =>
    exact ⟨{ t with httpRc := httpGatewayTimeout }, rfl, rfl, fun n' he => .call (.call he)⟩
  | serverUnavailable =>
    exact ⟨{ t with httpRc := httpServerUnavailable }, rfl, rfl, fun n' he => .call he⟩
  | notFound => exact ⟨{ t with httpRc := httpNotFound }, rfl, rfl, fun n' he => .call he⟩
  | forbidden => exact ⟨{ t with httpRc := httpServerError }, rfl, rfl, fun n' he => .call he⟩
  | assignmentType => exact ⟨{ t with httpRc := httpServerError }, rfl, rfl, fun n' he => .call he⟩
  | unknownAuthScheme =>
    exact ⟨{ t with httpRc := httpServerError }, rfl, rfl, fun n' he => .call he⟩
  | unknown => exact ⟨{ t with httpRc := httpServerError }, rfl, rfl, fun n' he => .call he⟩

/-! ### The SAR -/

/-- The task has not failed, and asks with one of the wildcards. -/
structure Fresh (t : ImpuRegDataTask) (wildcards : Set String) : Prop where
  httpRc : t.httpRc = httpOk
  wildcard : t.wildcardId ∈ wildcards

/-- The SAR that the task sends. -/
def request (cfg : RegDataConfig) (t : ImpuRegDataTask) (type : ServerAssignmentType) :
    ServerAssignmentRequest where
  impi := t.impi
  impu := t.impu
  serverName := if t.providedServerName = "" then cfg.configuredServerName else t.providedServerName
  type := type
  supportSharedIfcs := cfg.supportSharedIfcs
  wildcardImpu := t.wildcardId

/-- The task sends an SAR, replies to its request, and leaves the table `after saa`. -/
def Sends (cfg : RegDataConfig) (dir : Directory) (n : Node) (p : TaskProg (Option ImpuRegDataTask))
    (request : ServerAssignmentRequest) (after : ServerAssignmentAnswer → Table) : Prop :=
  ∃ n' w saa reply, Eval serveTask p n none n' ∧ n.After w [.sar request saa, reply] n' ∧
    IsReply saa.result.httpCode reply ∧ cfg.cache.InSync dir w (after saa)

theorem sends_sendSar {n : Node} (hn : n.Sound cfg dir wildcards) {t : ImpuRegDataTask} {irs : Irs}
    {type : ServerAssignmentType} {after : ServerAssignmentAnswer → Table} (hfresh : t.Fresh wildcards)
    (hends : ∀ n₁ saa, n₁.Sound cfg dir wildcards → n₁.table cfg = n.table cfg →
      Truthful dir cfg.px (t.request cfg type) saa →
      ∀ t' : ImpuRegDataTask, t'.type = t.type → t'.httpRc = saa.result.httpCode →
        EndsWith cfg dir n₁ (t'.updateCache cfg irs saa) saa.result.httpCode (after saa)) :
    Sends cfg dir n (t.sendSar cfg irs type) (t.request cfg type) after := by
  have htruthful := hn.truthful 0 (t.request cfg type) hfresh.wildcard
  have hafter := (Node.After.next n).trans
    (.saw n.next (.sar (t.request cfg type) ((n.outside 0).saa (t.request cfg type))))
  obtain ⟨n', w, reply, he, hafter', hreply, hsync⟩ := endsWith_onSarResponse hfresh.httpRc
    htruthful.notRenamed
    (hends _ _ (hn.after hafter hn.inSync) (hafter.table_eq hn.inSync) htruthful)
  exact ⟨n', w, _, reply, .call he, hafter.trans hafter', hreply, hsync⟩

/-- An SAR that assigns the subscriber. -/
theorem sends_assigning (hdistinct : cfg.cache.stores.Nodup) {n : Node}
    (hn : n.Sound cfg dir wildcards)
    {t : ImpuRegDataTask} (irs : Irs) {type : ServerAssignmentType} (hfresh : t.Fresh wildcards)
    (htype : t.type = .reg ∨ t.type = .call) (hassigns : type.Assigns)
    (hprepared : ∀ D, dir.defaultOf t.publicId = some D →
      irs.Prepared dir D (n.table cfg D)) :
    Sends cfg dir n (t.sendSar cfg irs type) (t.request cfg type) fun saa =>
      if saa.result = .success then
        (n.table cfg).set (some (saa.registration (decide (irs.registrationState = .registered))
          {impi | impi ∈ irs.getAssociatedImpis})) (dir.defaultOf t.publicId)
      else n.table cfg := by
  refine sends_sendSar hn hfresh fun n₁ saa hn₁ htable htruthful t' htype' hrc' => ?_
  rw [← htype'] at htype
  by_cases hsuccess : saa.result = .success
  · obtain ⟨D, hdir, hxml⟩ := htruthful.describes hsuccess hassigns
    have hdir : dir.defaultOf t.publicId = some D := hdir
    have hends := endsWith_put hdistinct hn₁ (dir.self _ _ hdir) (htable ▸ hprepared D hdir) hxml
      hsuccess htype
    rw [hrc', htable] at hends
    rw [if_pos hsuccess, hdir]
    exact hends
  · have hdereg : t'.type.isDeregistrationRequest = false := by
      rcases htype with htype | htype <;> rw [htype] <;> rfl
    have hends := endsWith_none hn₁ irs saa t'
      (fun h => absurd h hsuccess) (by simp [hdereg])
    rw [hrc', htable] at hends
    rw [if_neg hsuccess]
    exact hends

/-- An SAR that ends the registration. -/
theorem sends_deregistering (hdistinct : cfg.cache.stores.Nodup) {n : Node}
    (hn : n.Sound cfg dir wildcards)
    {t : ImpuRegDataTask} {irs : Irs} {type : ServerAssignmentType} (hfresh : t.Fresh wildcards)
    (htype : t.type.isDeregistrationRequest = true) {D : String} {r : Registration}
    (hdir : dir.defaultOf t.publicId = some D) (hr : n.table cfg D = some r)
    (hread : irs.ReadFor dir D r) :
    Sends cfg dir n (t.sendSar cfg irs type) (t.request cfg type) fun saa =>
      if saa.result = .serverUnavailable then n.table cfg
      else (n.table cfg).set none (dir.defaultOf t.publicId) := by
  refine sends_sendSar hn hfresh fun n₁ saa hn₁ htable htruthful t' htype' hrc' => ?_
  rw [← htype'] at htype
  by_cases hreached : saa.result = .serverUnavailable
  · have hends := endsWith_none hn₁ irs saa t' (fun _ => .inr htype)
      fun _ => hreached
    rw [hrc', htable] at hends
    rw [if_pos hreached]
    exact hends
  · have hends := endsWith_delete hdistinct hn₁ (dir.self _ _ hdir) hread.existing
      (htable ▸ hr ▸ hread.covers) hreached htype
    rw [hrc', htable] at hends
    rw [if_neg hreached, hdir]
    exact hends

/-- An SAR after a failed authentication. -/
theorem sends_authFailure {n : Node} (hn : n.Sound cfg dir wildcards) {t : ImpuRegDataTask} {irs : Irs}
    {type : ServerAssignmentType} (hfresh : t.Fresh wildcards)
    (htype : t.type.isAuthFailureRequest = true) :
    Sends cfg dir n (t.sendSar cfg irs type) (t.request cfg type) fun _ => n.table cfg := by
  refine sends_sendSar hn hfresh fun n₁ saa hn₁ htable htruthful t' htype' hrc' => ?_
  rw [← htype'] at htype
  have hdereg : t'.type.isDeregistrationRequest = false := by
    cases h : t'.type <;> rw [h] at htype <;> first | rfl | cases htype
  have hends := endsWith_none hn₁ irs saa t' (fun _ => .inl htype)
    (by simp [hdereg])
  rw [hrc', htable] at hends
  exact hends

/-! ### The cached data -/

/-- After its lookup, which shows `r?`, the task makes a step of the registrar. -/
def Steps (cfg : RegDataConfig) (dir : Directory) (n : Node) (t : ImpuRegDataTask)
    (p : TaskProg (Option ImpuRegDataTask)) : Prop :=
  ∃ n' w seen, Eval serveTask p n none n' ∧ n.After w seen n' ∧
    cfg.cache.InSync dir w (n'.table cfg) ∧
    RegistrarStep cfg.getPrivateId dir (n.table cfg) t.req.method t.inquiry
      (lookedUp (dir.find (n.table cfg) t.publicId) :: seen) (n'.table cfg)

/-- A step that asks the HSS. -/
theorem steps_of_sends {n : Node} {t t' : ImpuRegDataTask} {p : TaskProg (Option ImpuRegDataTask)}
    {type : ServerAssignmentType} {after : ServerAssignmentAnswer → Table}
    (hsends : Sends cfg dir n p (t'.request cfg type) after) (hmethod : t.req.method = .put)
    (himpu : t'.impu = t.impu) (hwildcard : t'.wildcardId = t.wildcardId)
    (himpi : t'.impi = t.inquiry.impiFor cfg.getPrivateId (dir.find (n.table cfg) t.publicId))
    (hasks : t.inquiry.Asks (dir.find (n.table cfg) t.publicId) type)
    (hafter : ∀ saa, after saa = (n.table cfg).after cfg.getPrivateId t.inquiry
      (dir.defaultOf t.publicId) saa type) : Steps cfg dir n t p := by
  obtain ⟨n', w, saa, reply, he, hseen, hreply, hsync⟩ := hsends
  have htable := hseen.table_eq hsync
  refine ⟨n', w, _, he, hseen, htable ▸ hsync, ?_⟩
  rw [htable, hafter]
  exact .asked (t'.request cfg type) saa reply hmethod ⟨hasks, himpu, hwildcard, himpi⟩ hreply

/-- A step that answers from the table. -/
theorem steps_of_reply {n : Node} (hn : n.Sound cfg dir wildcards) {t t' : ImpuRegDataTask}
    (hrc : t'.httpRc = httpOk)
    (hstep : ∀ reply, IsReply httpOk reply → RegistrarStep cfg.getPrivateId dir (n.table cfg)
      t.req.method t.inquiry [lookedUp (dir.find (n.table cfg) t.publicId), reply] (n.table cfg)) :
    Steps cfg dir n t t'.replyAndFinish := by
  obtain ⟨n', reply, he, hseen, hreply⟩ := t'.eval_replyAndFinish n
  rw [hrc] at hreply
  refine ⟨n', n.world, _, he, hseen, ?_, ?_⟩
  · rw [hseen.table_eq hn.inSync]
    exact hn.inSync
  · rw [hseen.table_eq hn.inSync]
    exact hstep reply hreply

/-- The binding on the request is new when the registration does not have it. -/
theorem newBinding_eq {t : ImpuRegDataTask} {irs : Irs} {r : Registration}
    (hprofile : irs.imsSubXml = r.profile)
    (himpis : ∀ impi, impi ∈ irs.getAssociatedImpis ↔ impi ∈ r.impis) :
    t.newBinding irs = true ↔ t.impi ≠ "" ∧ r.profile ≠ "" ∧ t.impi ∉ r.impis := by
  have hcontains : (irs.getAssociatedImpis.isEmpty || !irs.getAssociatedImpis.contains t.impi) = true ↔
      t.impi ∉ r.impis := by
    rw [← himpis]
    cases hlist : irs.getAssociatedImpis with
    | nil => simp
    | cons impi impis => simp
  rw [newBinding, Bool.and_eq_true, Bool.and_eq_true, hcontains, hprofile]
  simp [and_assoc]

theorem present_addAssociatedImpi (irs : Irs) (impi : String) :
    {x | x ∈ (irs.addAssociatedImpi impi).getAssociatedImpis}
      = insert impi {x | x ∈ irs.getAssociatedImpis} := by
  ext x
  have hmem : x ∈ (irs.addAssociatedImpi impi).getAssociatedImpis ↔
      (irs.impis.insert impi .added)[x]? = some .unchanged ∨
        (irs.impis.insert impi .added)[x]? = some .added := Data.mem_present
  have hold : x ∈ irs.getAssociatedImpis ↔
      irs.impis[x]? = some .unchanged ∨ irs.impis[x]? = some .added := Data.mem_present
  show x ∈ (irs.addAssociatedImpi impi).getAssociatedImpis ↔ x = impi ∨ x ∈ irs.getAssociatedImpis
  rw [hmem, hold, Data.getElem?_insert]
  by_cases hx : x = impi
  · simp [hx]
  · simp [hx]

/-- The task `t'` after the lookup of `t`, which has shown `r?`. -/
structure LookedUp (cfg : RegDataConfig) (t : ImpuRegDataTask) (r? : Option Registration)
    (t' : ImpuRegDataTask) : Prop where
  impu : t'.impu = t.impu
  wildcardId : t'.wildcardId = t.wildcardId
  type : t'.type = t.type
  httpRc : t'.httpRc = t.httpRc
  impi : t'.impi = t.inquiry.impiFor cfg.getPrivateId r?

theorem LookedUp.fresh {t t' : ImpuRegDataTask} {r? : Option Registration}
    (h : LookedUp cfg t r? t') (hfresh : t.Fresh wildcards) : t'.Fresh wildcards :=
  ⟨h.httpRc.trans hfresh.httpRc, h.wildcardId ▸ hfresh.wildcard⟩

theorem LookedUp.publicId {t t' : ImpuRegDataTask} {r? : Option Registration}
    (h : LookedUp cfg t r? t') : t'.publicId = t.publicId := by
  unfold ImpuRegDataTask.publicId
  rw [h.wildcardId, h.impu]

section Processing

variable {n : Node} {t t' : ImpuRegDataTask} {irs : Irs} {r : Registration}

/-- An SAR that assigns the subscriber, as a step. -/
theorem steps_assigning (hdistinct : cfg.cache.stores.Nodup) (hn : n.Sound cfg dir wildcards)
    (hfresh : t.Fresh wildcards) (hmethod : t.req.method = .put) (htype : t.type = .reg ∨ t.type = .call)
    (hlooked : LookedUp cfg t (dir.find (n.table cfg) t.publicId) t') {type : ServerAssignmentType}
    (hassigns : type.Assigns) (hprepared : ∀ D, dir.defaultOf t.publicId = some D →
      irs.Prepared dir D (n.table cfg D))
    (hasks : t.inquiry.Asks (dir.find (n.table cfg) t.publicId) type) {registered : Bool}
    {impis : Set String} (hregistered : decide (irs.registrationState = .registered) = registered)
    (himpis : {impi | impi ∈ irs.getAssociatedImpis} = impis)
    (hafter : ∀ saa, (n.table cfg).after cfg.getPrivateId t.inquiry (dir.defaultOf t.publicId) saa type
      = if saa.result = .success then
          (n.table cfg).set (some (saa.registration registered impis)) (dir.defaultOf t.publicId)
        else n.table cfg) : Steps cfg dir n t (t'.sendSar cfg irs type) := by
  rw [← hlooked.publicId] at hprepared
  have hsends :=
    sends_assigning hdistinct hn irs (hlooked.fresh hfresh) (hlooked.type ▸ htype) hassigns
    hprepared
  rw [hregistered, himpis, hlooked.publicId] at hsends
  exact steps_of_sends hsends hmethod hlooked.impu hlooked.wildcardId hlooked.impi hasks
    fun saa => (hafter saa).symm

/-- An initial registration, or one with a new binding. -/
theorem steps_registration (hdistinct : cfg.cache.stores.Nodup) (hn : n.Sound cfg dir wildcards)
    (hfresh : t.Fresh wildcards) (hmethod : t.req.method = .put) (htype : t.type = .reg)
    (hlooked : LookedUp cfg t (dir.find (n.table cfg) t.publicId) t')
    (hprepared : ∀ D, dir.defaultOf t.publicId = some D →
      irs.Prepared dir D (n.table cfg D))
    (himpis : {impi | impi ∈ irs.getAssociatedImpis}
      = (dir.find (n.table cfg) t.publicId).elim ∅ Registration.impis)
    (hnew : ∀ r, dir.find (n.table cfg) t.publicId = some r → ¬ t.inquiry.IsKnown r) :
    Steps cfg dir n t (t'.sendSar cfg ((irs.setRegState .registered).addAssociatedImpi t'.impi)
      .registration) := by
  refine steps_assigning hdistinct hn hfresh hmethod (.inl htype) hlooked trivial
    (fun D hD => ((hprepared D hD).setRegState _).addAssociatedImpi _) (.registration _ htype hnew)
    (decide_eq_true rfl) (present_addAssociatedImpi _ _) fun saa => ?_
  have hlisted : {impi | impi ∈ (irs.setRegState .registered).getAssociatedImpis} = _ := himpis
  rw [hlooked.impi, hlisted]
  rfl

/-- A registration of a subscriber with a record. -/
theorem steps_reg_found (hdistinct : cfg.cache.stores.Nodup) (hn : n.Sound cfg dir wildcards)
    (hfresh : t.Fresh wildcards) (hmethod : t.req.method = .put) (htype : t.type = .reg)
    (hfind : dir.find (n.table cfg) t.publicId = some r)
    (hread : ∀ D, dir.defaultOf t.publicId = some D →
      irs.ReadFor dir D r)
    (hstate : irs.registrationState = .registered ↔ r.registered = true)
    (hlooked : LookedUp cfg t (some r) t') (hcached : t'.cachedRegState = irs.registrationState) :
    Steps cfg dir n t (t'.processReg cfg irs (t.newBinding irs)) := by
  obtain ⟨D, hdir, hD⟩ := Option.bind_eq_some_iff.mp hfind
  have hlisted : {impi | impi ∈ irs.getAssociatedImpis} = r.impis :=
    Set.ext fun impi => (hread D hdir).impis impi
  have hknown : t'.cachedRegState = .registered ∧ ¬ t.newBinding irs = true ↔
      t.inquiry.IsKnown r := by
    rw [hcached, hstate, newBinding_eq (hread D hdir).profile (hread D hdir).impis]
    rfl
  have hprepared : ∀ E, dir.defaultOf t.publicId = some E → irs.Prepared dir E (n.table cfg E) := by
    intro E hE
    rw [hdir] at hE
    cases hE
    rw [hD]
    exact (hread D hdir).prepared
  rw [← hfind] at hlooked
  -- A re-registration keeps the IMPIs of the record.
  have hreRegistration : t.inquiry.IsKnown r →
      Steps cfg dir n t (t'.sendSar cfg (irs.setRegState .registered) .reRegistration) := by
    intro hk
    refine steps_assigning hdistinct hn hfresh hmethod (.inl htype) hlooked trivial
      (fun E hE => (hprepared E hE).setRegState _) ?_ (decide_eq_true rfl) hlisted
      fun saa => ?_
    · rw [hfind]
      exact .reRegistration r htype hk
    · rw [hdir]
      simp [Table.after, hD]
  have hreply : t.inquiry.IsKnown r → Steps cfg dir n t t'.replyAndFinish := by
    intro hk
    refine steps_of_reply hn (hlooked.fresh hfresh).httpRc fun reply hreply => ?_
    rw [hfind]
    exact .fromTable r reply hmethod hfind (.inl ⟨htype, hk⟩) hreply
  unfold processReg
  split
  · rename_i hk
    have hk := hknown.mp hk
    dsimp only
    split
    · exact hreRegistration hk
    · split
      · exact hreRegistration hk
      · exact hreply hk
  · rename_i hnew
    refine steps_registration hdistinct hn hfresh hmethod htype hlooked hprepared ?_
      fun r' hr' hk => ?_
    · rw [hlisted, hfind]
      rfl
    · rw [hfind] at hr'
      cases hr'
      exact hnew (hknown.mpr hk)

/-- A failed authentication, with a record or without. -/
theorem steps_authFailure (hn : n.Sound cfg dir wildcards) (hfresh : t.Fresh wildcards)
    (hmethod : t.req.method = .put)
    (hauth : t.type.isAuthFailureRequest = true)
    (hlooked : LookedUp cfg t (dir.find (n.table cfg) t.publicId) t') :
    Steps cfg dir n t (t'.sendSar cfg irs t'.type.sarType) := by
  rw [hlooked.type]
  refine steps_of_sends (sends_authFailure hn (hlooked.fresh hfresh) (hlooked.type ▸ hauth)) hmethod
    hlooked.impu hlooked.wildcardId hlooked.impi (.authFailure _ hauth) fun saa => ?_
  cases htype : t.type <;> rw [htype] at hauth <;> first | rfl | cases hauth

/-- The branches of `process_received_reg_data` leave nothing out. -/
theorem RequestType.exhaustive {type : RequestType} (h : type ≠ .unknown) :
    ¬ (type ≠ .reg ∧ type ≠ .call ∧ ¬ type.isDeregistrationRequest = true ∧
      ¬ type.isAuthFailureRequest = true) := by
  cases type <;>
    simp_all [RequestType.isDeregistrationRequest, RequestType.isAuthFailureRequest]

/-- A subscriber with a record. -/
theorem steps_found (hdistinct : cfg.cache.stores.Nodup) (hn : n.Sound cfg dir wildcards)
    (hmethod : t.req.method = .put ∧ t.type ≠ .unknown ∨ t.req.method = .get)
    (hfresh : t.Fresh wildcards) (hfind : dir.find (n.table cfg) t.publicId = some r)
    (hread : ∀ D, dir.defaultOf t.publicId = some D →
      irs.ReadFor dir D r)
    (hstate : irs.registrationState = .registered ↔ r.registered = true)
    (hregistered : irs.registrationState ≠ .notRegistered) :
    Steps cfg dir n t (t.processReceivedRegData cfg irs) := by
  obtain ⟨D, hdir, hD⟩ := Option.bind_eq_some_iff.mp hfind
  unfold processReceivedRegData
  dsimp only
  rcases hmethod with ⟨hmethod, htype⟩ | hmethod
  · rw [hmethod, if_neg (by simp)]
    have hlooked : LookedUp cfg t (some r) { t with
        cachedRegState := irs.registrationState
        impi := if t.impi = "" then cfg.getPrivateId irs.imsSubXml else t.impi } := by
      refine ⟨rfl, rfl, rfl, rfl, ?_⟩
      show (if _ then cfg.getPrivateId irs.imsSubXml else _) = _
      rw [(hread D hdir).profile]
      rfl
    by_cases hreg : t.type = .reg
    · rw [if_pos hreg]
      exact steps_reg_found hdistinct hn hfresh hmethod hreg hfind hread hstate hlooked rfl
    rw [if_neg hreg]
    by_cases hcall : t.type = .call
    · -- A call is answered from the cache, whatever the state of the record.
      rw [if_pos hcall]
      unfold processCall
      rw [if_neg hregistered]
      refine steps_of_reply hn (hlooked.fresh hfresh).httpRc fun reply hreply => ?_
      rw [hfind]
      exact .fromTable r reply hmethod hfind (.inr hcall) hreply
    rw [if_neg hcall]
    rw [← hfind] at hlooked
    by_cases hdereg : t.type.isDeregistrationRequest = true
    · rw [if_pos hdereg]
      unfold processDereg
      rw [if_pos hregistered]
      refine steps_of_sends (sends_deregistering hdistinct hn (hlooked.fresh hfresh)
          (hlooked.type ▸ hdereg) (hlooked.publicId ▸ hdir) hD ((hread D hdir).setRegState _))
          hmethod hlooked.impu
        hlooked.wildcardId hlooked.impi ?_ fun saa => ?_
      · rw [hfind]
        exact .deregistration r hdereg
      · rw [hlooked.publicId]
        show _ = (n.table cfg).after _ _ _ _ t.type.sarType
        cases htype' : t.type <;> rw [htype'] at hdereg <;> first | rfl | cases hdereg
    rw [if_neg hdereg]
    by_cases hauth : t.type.isAuthFailureRequest = true
    · rw [if_pos hauth]
      exact steps_authFailure hn hfresh hmethod hauth hlooked
    · exact absurd ⟨hreg, hcall, hdereg, hauth⟩ (RequestType.exhaustive htype)
  · rw [if_pos hmethod]
    refine steps_of_reply hn hfresh.httpRc fun reply hreply => ?_
    rw [hfind]
    exact .get r reply hmethod hfind hreply

/-- A subscriber without a record. -/
theorem steps_none (hdistinct : cfg.cache.stores.Nodup) (hn : n.Sound cfg dir wildcards)
    (hmethod : t.req.method = .put) (htype : t.type ≠ .unknown) (hfresh : t.Fresh wildcards)
    (hfind : dir.find (n.table cfg) t.publicId = none) (ttl : Int) (state : RegistrationState) :
    Steps cfg dir n t
      (t.processReceivedRegData cfg ((Irs.new ttl state).setRegState .notRegistered)) := by
  have hlooked : ∀ cached, LookedUp cfg t none { t with
      cachedRegState := cached
      impi := if t.impi = "" then cfg.getPrivateId "" else t.impi } :=
    fun _ => ⟨rfl, rfl, rfl, rfl, rfl⟩
  rw [← hfind] at hlooked
  have hprepared : ∀ D, dir.defaultOf t.publicId = some D →
      (Irs.new ttl state).Prepared dir D (n.table cfg D) := by
    intro D hdir
    rw [Directory.find_of_some hdir] at hfind
    rw [hfind]
    exact prepared_new ttl state
  have himpis : {impi | impi ∈ (Irs.new ttl state).getAssociatedImpis} = ∅ := by
    refine Set.eq_empty_of_forall_notMem fun impi h => ?_
    have h : impi ∈ (∅ : Data).present := h
    simp [Data.mem_present] at h
  unfold processReceivedRegData
  dsimp only
  rw [hmethod, if_neg (by simp)]
  by_cases hreg : t.type = .reg
  · rw [if_pos hreg]
    unfold processReg
    rw [if_neg (by simp [Irs.setRegState])]
    exact steps_registration hdistinct hn hfresh hmethod hreg (hlooked _)
      (fun D hdir => (hprepared D hdir).setRegState _) (by rw [hfind]; exact himpis)
      fun r hr => by simp [hfind] at hr
  rw [if_neg hreg]
  by_cases hcall : t.type = .call
  · rw [if_pos hcall]
    unfold processCall
    rw [if_pos (by rfl)]
    refine steps_assigning hdistinct hn hfresh hmethod (.inr hcall) (hlooked _) trivial
      (fun D hdir => ((hprepared D hdir).setRegState _).setRegState _) ?_
      (decide_eq_false (by simp [Irs.setRegState])) himpis fun saa => rfl
    rw [hfind]
    exact .unregisteredUser hcall
  rw [if_neg hcall]
  by_cases hdereg : t.type.isDeregistrationRequest = true
  · rw [if_pos hdereg]
    unfold processDereg
    rw [if_neg (by simp [Irs.setRegState])]
    refine ⟨_, n.world, _, eval_rejectWith _ n, .saw n _, hn.inSync, ?_⟩
    rw [hfind]
    exact .notRegistered hmethod hfind hdereg
  rw [if_neg hdereg]
  by_cases hauth : t.type.isAuthFailureRequest = true
  · rw [if_pos hauth]
    exact steps_authFailure hn hfresh hmethod hauth (hlooked _)
  · exact absurd ⟨hreg, hcall, hdereg, hauth⟩ (RequestType.exhaustive htype)

end Processing

/-! ### One request -/

/-- The program serves the request `q`: its run is a step of the registrar. -/
def Serves {α : Type} (cfg : RegDataConfig) (dir : Directory) (n : Node) (p : TaskProg α) (a : α)
    (method : HttpMethod) (q : Inquiry) : Prop :=
  ∃ n' w seen, Eval serveTask p n a n' ∧ n.After w seen n' ∧
    cfg.cache.InSync dir w (n'.table cfg) ∧
    RegistrarStep cfg.getPrivateId dir (n.table cfg) method q seen (n'.table cfg)

/-- The lookup, and what follows it. -/
theorem serves_of_steps {n n₁ : Node} {w : World} {t : ImpuRegDataTask}
    (hafter : n.After w [lookedUp (dir.find (n.table cfg) t.publicId)] n₁)
    (hstores : w.stores = n.world.stores) {p : TaskProg (Option ImpuRegDataTask)}
    (hsteps : Steps cfg dir n₁ t p)
    (hrun : ∀ n', Eval serveTask p n₁ none n' → Eval serveTask (t.getRegData cfg) n none n') :
    Serves cfg dir n (t.getRegData cfg) none t.req.method t.inquiry := by
  obtain ⟨n', w', seen, he, hseen, hcons, hstep⟩ := hsteps
  have htable : n₁.table cfg = n.table cfg := by
    rw [Node.table, Node.table, hafter.world, hstores]
  rw [htable] at hstep
  exact ⟨n', w', _, hrun n' he, hafter.trans hseen, hcons, hstep⟩

/-- `get_reg_data` of an identity that leads to a registration. -/
theorem serves_getRegData_found (hdistinct : cfg.cache.stores.Nodup) {n : Node}
    (hn : n.Sound cfg dir wildcards) {t : ImpuRegDataTask}
    (hmethod : t.req.method = .put ∧ t.type ≠ .unknown ∨ t.req.method = .get)
    (hfresh : t.Fresh wildcards) {r : Registration}
    (hfind : dir.find (n.table cfg) t.publicId = some r) :
    Serves cfg dir n (t.getRegData cfg) none t.req.method t.inquiry := by
  obtain ⟨D, hdir, hD⟩ := Option.bind_eq_some_iff.mp hfind
  obtain ⟨d, hd, rfl⟩ := Option.map_eq_some_iff.mp hD
  obtain ⟨cas, hcell⟩ := CasTable.value?_eq_some.mp (ImpuStore.defaultAt_eq_some.mp hd)
  have hlookup := MemcachedCache.eval_getImplicitRegistrationSetForImpu_ok
    (hn.inSync.defaultImpuFor_some hdir hcell)
  have hafter := (Node.After.withWorld n n.world.tick).trans (.saw _ (.found (Irs.registration
    (Irs.ofDefaultImpu (d.fromData D cas cfg.cache.localStore) (n.world.clock 0)))))
  have hread : ∀ E, dir.defaultOf t.publicId = some E →
      (Irs.ofDefaultImpu (d.fromData D cas cfg.cache.localStore) (n.world.clock 0)).ReadFor dir E
        d.registration := by
    intro E hE
    rw [hdir] at hE
    cases hE
    exact readFor_ofDefaultImpu hn.inSync.localStore.consistent hd _ _ _
  have hsteps := steps_found hdistinct (hn.after hafter hn.inSync.tick) hmethod hfresh hfind hread
    (registrationState_ofDefaultImpu _ _ _ _ _).1 (registrationState_ofDefaultImpu _ _ _ _ _).2
  refine serves_of_steps (w := n.world.tick) ?_ rfl hsteps fun n' he =>
    eval_getRegData_found hlookup he
  rw [hfind, lookedUp, ← registration_ofDefaultImpu d D cas cfg.cache.localStore (n.world.clock 0)]
  exact hafter

/-- `get_reg_data` of any other identity. -/
theorem serves_getRegData_none (hdistinct : cfg.cache.stores.Nodup) {n : Node}
    (hn : n.Sound cfg dir wildcards) {t : ImpuRegDataTask}
    (hmethod : t.req.method = .put ∧ t.type ≠ .unknown ∨ t.req.method = .get)
    (hfresh : t.Fresh wildcards) (hfind : dir.find (n.table cfg) t.publicId = none) :
    Serves cfg dir n (t.getRegData cfg) none t.req.method t.inquiry := by
  have hlookup := MemcachedCache.eval_getImplicitRegistrationSetForImpu_ne
    (hn.inSync.defaultImpuFor_none hfind) (by simp)
  have hafter := Node.After.saw n (.notFound .notFound)
  rcases hmethod with ⟨hmethod, htype⟩ | hmethod
  · -- A new IRS stands in for the record.
    have hnext := hafter.trans (.next _)
    have hsteps := steps_none hdistinct (hn.after hnext hn.inSync) hmethod htype hfresh hfind
      (n.outside 0).uninitialised.1 (n.outside 0).uninitialised.2
    refine serves_of_steps (w := n.world) ?_ rfl hsteps fun n' he =>
      eval_getRegData_none hlookup ?_
    · rw [hfind]
      exact hnext
    · rw [if_pos hmethod]
      exact .call he
  · refine ⟨_, n.world, _, eval_getRegData_none hlookup ?_, hafter.trans (.saw _ _), hn.inSync,
      .getNone hmethod hfind⟩
    rw [if_neg (by simp [hmethod])]
    exact eval_rejectWith _ _

/-- The whole task. -/
theorem serves_run (hdistinct : cfg.cache.stores.Nodup) {n : Node} (hn : n.Sound cfg dir wildcards)
    (req : HttpRequest) (hwildcard : (ofRequest cfg req).wildcardId ∈ wildcards) :
    Serves cfg dir n (run cfg req) () req.method (ofRequest cfg req).inquiry := by
  have hreject : ∀ rc, (req.method = .other ∧ rc = httpBadMethod ∨ req.method = .put ∧
      (ofRequest cfg req).inquiry.type = .unknown ∧ rc = httpBadRequest) →
      Serves cfg dir n (do TaskProg.sendHttpReply rc ""; TaskProg.deleteThis) () req.method
        (ofRequest cfg req).inquiry := fun rc hrc =>
    ⟨_, n.world, _, .call (.call (.ret _ _)), .saw n (.reply rc ""), hn.inSync, .rejected rc hrc⟩
  have hrounds : (req.method = .put ∧ (ofRequest cfg req).type ≠ .unknown ∨ req.method = .get) →
      Serves cfg dir n ((ofRequest cfg req).rounds cfg) () req.method
        (ofRequest cfg req).inquiry := by
    intro hmethod
    have hserves : Serves cfg dir n ((ofRequest cfg req).getRegData cfg) none req.method
        (ofRequest cfg req).inquiry := by
      cases hfind : dir.find (n.table cfg) (ofRequest cfg req).publicId with
      | none => exact serves_getRegData_none hdistinct hn hmethod ⟨rfl, hwildcard⟩ hfind
      | some r => exact serves_getRegData_found hdistinct hn hmethod ⟨rfl, hwildcard⟩ hfind
    obtain ⟨n', w, seen, he, hrest⟩ := hserves
    exact ⟨n', w, seen, (Eval.loop_once he rfl).bind (.ret _ _), hrest⟩
  unfold run
  cases hmethod : req.method with
  | get => rw [hmethod] at hrounds; exact hrounds (.inr rfl)
  | other => rw [hmethod] at hreject; exact hreject _ (.inl ⟨rfl, rfl⟩)
  | put =>
    rw [hmethod] at hrounds hreject
    dsimp only
    split
    · rename_i htype
      exact hreject _ (.inr ⟨rfl, htype, rfl⟩)
    · rename_i htype
      exact hrounds (.inl ⟨rfl, htype⟩)

end ImpuRegDataTask

/-! ### Every run -/

/-- The requests in turn. -/
def serveRequests (cfg : RegDataConfig) (requests : List HttpRequest) : TaskProg Unit :=
  Prog.forEach requests (fun req _ => ImpuRegDataTask.run cfg req) ()

/-- One subscriber with two identities. -/
def exampleDirectory : Directory where
  defaultOf id :=
    if id = "sip:d@example.com" ∨ id = "sip:a@example.com" then some "sip:d@example.com" else none
  self id D h := by
    split at h
    · cases h
      rfl
    · cases h

/-- A node with a local store and two remote ones. The body of a request is its type. -/
def exampleNodeConfig : RegDataConfig where
  cache := { localStore := 0, remoteStores := [1, 2] }
  hssReregistrationTime := 3600
  recordTtl := 7200
  supportSharedIfcs := true
  configuredServerName := "sip:scscf.example.com"
  px := .ofTable [("profile", ["sip:d@example.com", "sip:a@example.com"])]
  privateId := fun _ => none
  json := fun body => some (.object [("reqtype", .string body)])
  urlUnescape := id

/-- An HSS that knows the subscriber. -/
def exampleOutside : Outside where
  saa request :=
    if (exampleDirectory.defaultOf request.publicId).isSome then
      { result := .success, serviceProfile := "profile" }
    else { result := .notFound }
  sprout := httpOk
  regDataXml _ := (httpOk, "document")
  uninitialised := (0, .unknown)

/-- The node before its first request. -/
def exampleNode : Node where
  world := { stores := fun _ => .empty, clock := fun _ => 0 }
  outside := fun _ => exampleOutside
  seen := []

def exampleRegDataRequest (method : HttpMethod) (fullPath body : String) : HttpRequest where
  method := method
  fullPath := fullPath
  privateId := "d@example.com"
  body := body
  cacheControl := ""

theorem describes_exampleDirectory :
    exampleDirectory.Describes exampleNodeConfig.px "profile" "sip:d@example.com" where
  defaultId := by decide
  publicIds id := by
    have hids : exampleNodeConfig.px.getPublicIds "profile"
        = ["sip:d@example.com", "sip:a@example.com"] := by decide
    rw [hids]
    simp [exampleDirectory, imp_iff_not_or]

theorem sound_exampleNode : exampleNode.Sound exampleNodeConfig exampleDirectory Set.univ where
  inSync := inSync_empty _ _ _ rfl
  truthful _ request _ := by
    show Truthful _ _ request (if _ then _ else _)
    split
    · rename_i hknown
      obtain ⟨D, hD⟩ := Option.isSome_iff_exists.mp hknown
      have hself : D = "sip:d@example.com" := by
        simp only [exampleDirectory] at hD
        split at hD <;> cases hD
        rfl
      refine ⟨by rintro ⟨⟩, fun _ _ => ⟨D, hD, ?_⟩⟩
      rw [hself]
      exact describes_exampleDirectory
    · exact ⟨by rintro ⟨⟩, by rintro ⟨⟩⟩

end Homestead

import Homestead.Proofs.HssRequests
import Homestead.Proofs.Registered

/-!
# `Homestead.Proofs.NodeRequests`: the requests of a deployment

The nodes of a deployment share their stores: each has one of them as its local store and the others
as remote ones. A node serves requests from Sprout, from the management interface and from the HSS,
and the nodes take turns in any order. `NodeRequest.serves_run` is one request to a node, a
`NodeStep` on the table of registrations, and `SiteRequest.serves_run` one to the node of any site.

* `deployment_refinement`: a deployment is what its specification says, in every run.
* `eval_serveSites_keeps`: what every step keeps, a run keeps.
-/

set_option autoImplicit false

namespace Homestead

section Node

variable {cfg : RegDataConfig} {dir : Directory} {wildcards : Set String}

/-! ### One request -/

/-- What a request may say: one of the wildcards, and a document that describes its subscriber. -/
def NodeRequest.Allowed (cfg : RegDataConfig) (dir : Directory) (wildcards : Set String) :
    NodeRequest → Prop
  | .regData req => (cfg.inquiry req).2.wildcard ∈ wildcards
  | .readRegData req => (cfg.inquiry req).2.wildcard ∈ wildcards
  | .termination _ => True
  | .push ppr => ppr.Truthful dir cfg.px

theorem NodeRequest.serves_run (hdistinct : cfg.cache.stores.Nodup) {n : Node}
    (hn : n.Sound cfg dir wildcards) {request : NodeRequest}
    (hallowed : request.Allowed cfg dir wildcards) :
    ∃ n' w seen, Eval serveTask (request.run cfg) n () n' ∧ n.After w seen n' ∧
      n'.Sound cfg dir wildcards ∧ NodeStep cfg dir (n.table cfg) request seen (n'.table cfg) := by
  have hsound : ∀ {n' w seen tbl'}, n.After w seen n' → cfg.cache.InSync dir w tbl' →
      n'.Sound cfg dir wildcards ∧ n'.table cfg = tbl' :=
    fun hafter hsync => ⟨hn.after hafter hsync, hafter.table_eq hsync⟩
  cases request with
  | regData req =>
    obtain ⟨n', w, seen, he, hafter, hsync, hstep⟩ :=
      ImpuRegDataTask.serves_run hdistinct hn req hallowed
    exact ⟨n', w, seen, he, hafter, hn.after hafter hsync, .regData req hstep⟩
  | readRegData req =>
    by_cases hmethod : req.method = .get
    · obtain ⟨n', w, seen, he, hafter, hsync, hstep⟩ :=
        ImpuRegDataTask.serves_run hdistinct hn req hallowed
      rw [hmethod] at hstep
      refine ⟨n', w, seen, ?_, hafter, hn.after hafter hsync, .readRegData req hmethod hstep⟩
      show Eval serveTask (ImpuReadRegDataTask.run cfg req) _ _ _
      unfold ImpuReadRegDataTask.run
      rwa [if_neg (not_not_intro hmethod)]
    · have hafter := Node.After.saw n (.reply httpBadMethod "")
      obtain ⟨hn', htable⟩ := hsound hafter hn.inSync
      refine ⟨_, _, _, ?_, hafter, hn', htable ▸ .badMethod req hmethod⟩
      show Eval serveTask (ImpuReadRegDataTask.run cfg req) _ _ _
      unfold ImpuReadRegDataTask.run
      rw [if_pos hmethod]
      exact .call (.call (.ret _ _))
  | termination rtr =>
    obtain ⟨n', w, seen, tbl', he, hafter, hsync, hstep⟩ :=
      RegistrationTerminationTask.terminates_run hdistinct hn.inSync rtr
    obtain ⟨hn', htable⟩ := hsound hafter hsync
    exact ⟨n', w, seen, he, hafter, hn', htable ▸ .termination rtr hstep⟩
  | push ppr =>
    obtain ⟨n', w, seen, tbl', he, hafter, hsync, hstep⟩ :=
      PushProfileTask.pushes_run hdistinct hn.inSync hallowed
    obtain ⟨hn', htable⟩ := hsound hafter hsync
    exact ⟨n', w, seen, he, hafter, hn', htable ▸ .push ppr hstep⟩

end Node

/-! ### Deployments -/

/-- The stores that the nodes of a deployment share, how the nodes read documents, and what the HSS
knows. -/
structure Deployment where
  stores : List StoreId
  distinct : stores.Nodup
  px : XmlParser
  dir : Directory
  wildcards : Set String

namespace Deployment

/-- A node of the deployment. Any of the stores may be its local one. -/
structure HasSite (d : Deployment) (cfg : RegDataConfig) : Prop where
  stores : cfg.cache.stores.Perm d.stores
  px : cfg.px = d.px

/-- All the stores hold the registrations of the table, and the HSS tells the truth. -/
structure InSync (d : Deployment) (n : Node) (tbl : Table) : Prop where
  represents : ∀ s ∈ d.stores, (n.world.stores s).Represents d.dir tbl
  truthful : ∀ i request, request.wildcardImpu ∈ d.wildcards →
    Truthful d.dir d.px request ((n.outside i).saa request)

variable {d : Deployment} {cfg : RegDataConfig} {n : Node} {tbl : Table}

theorem HasSite.distinct (h : d.HasSite cfg) : cfg.cache.stores.Nodup :=
  h.stores.nodup_iff.mpr d.distinct

/-- To each node the deployment is a sound one, with the same table. -/
theorem InSync.sound (h : d.InSync n tbl) (hsite : d.HasSite cfg) :
    n.Sound cfg d.dir d.wildcards ∧ n.table cfg = tbl := by
  have hsync : cfg.cache.InSync d.dir n.world tbl :=
    fun s hs => h.represents s (hsite.stores.mem_iff.mp hs)
  have htable : n.table cfg = tbl := hsync.localStore.table
  exact ⟨⟨htable ▸ hsync, fun i request hwildcard => hsite.px ▸ h.truthful i request hwildcard⟩,
    htable⟩

/-- And so one node decides it. -/
theorem HasSite.inSync (hsite : d.HasSite cfg) (hn : n.Sound cfg d.dir d.wildcards) :
    d.InSync n (n.table cfg) where
  represents s hs := hn.inSync s (hsite.stores.mem_iff.mpr hs)
  truthful i request hwildcard := hsite.px ▸ hn.truthful i request hwildcard

end Deployment

/-- A request that a node of the deployment may have. -/
structure SiteRequest.Allowed (r : SiteRequest) (d : Deployment) : Prop where
  site : d.HasSite r.site
  request : r.request.Allowed r.site d.dir d.wildcards

/-- A request to any of the nodes. -/
theorem SiteRequest.serves_run {d : Deployment} {n : Node} {tbl : Table} (hn : d.InSync n tbl)
    {r : SiteRequest} (hallowed : r.Allowed d) :
    ∃ n' w seen tbl', Eval serveTask (r.request.run r.site) n () n' ∧ n.After w seen n' ∧
      d.InSync n' tbl' ∧ NodeStep r.site d.dir tbl r.request seen tbl' := by
  obtain ⟨hsound, htable⟩ := hn.sound hallowed.site
  obtain ⟨n', w, seen, he, hafter, hn', hstep⟩ :=
    NodeRequest.serves_run hallowed.site.distinct hsound hallowed.request
  exact ⟨n', w, seen, _, he, hafter, hallowed.site.inSync hn', htable ▸ hstep⟩

/-! ### Every run -/

/-- The requests in turn. -/
def serveSites (requests : List SiteRequest) : TaskProg Unit :=
  Prog.forEach requests (fun r _ => r.request.run r.site) ()

/-- What every step keeps, a run keeps. -/
theorem eval_serveSites_keeps {d : Deployment} {P : List Observation → Table → Prop}
    {requests : List SiteRequest} (hallowed : ∀ r ∈ requests, r.Allowed d)
    (hkeeps : ∀ r ∈ requests, ∀ seen tbl seen' tbl', P seen tbl →
      NodeStep r.site d.dir tbl r.request seen' tbl' → P (seen ++ seen') tbl')
    {n : Node} {tbl : Table} (hn : d.InSync n tbl) (seen : List Observation) (hP : P seen tbl) :
    ∃ n' w seen' tbl', Eval serveTask (serveSites requests) n () n' ∧ n.After w seen' n' ∧
      d.InSync n' tbl' ∧ P (seen ++ seen') tbl' := by
  induction requests generalizing n tbl seen with
  | nil => exact ⟨n, n.world, [], tbl, .ret _ _, .refl n, hn, by simpa using hP⟩
  | cons r requests ih =>
    obtain ⟨n₁, w, seen₁, tbl₁, he, hafter, hn₁, hstep⟩ :=
      SiteRequest.serves_run hn (hallowed r List.mem_cons_self)
    obtain ⟨n', w', seen', tbl', he', hafter', hn', hP'⟩ :=
      ih (fun r' h => hallowed r' (List.mem_cons_of_mem _ h))
        (fun r' h => hkeeps r' (List.mem_cons_of_mem _ h)) hn₁ _
        (hkeeps r List.mem_cons_self _ _ _ _ hP hstep)
    rw [List.append_assoc] at hP'
    exact ⟨n', w', _, tbl', he.bind he', hafter.trans hafter', hn', hP'⟩

/-! ### A registered subscriber -/

/-- The record of the subscriber of `exampleDirectory`. -/
def exampleRecord : DefaultImpuData where
  registrationState := true
  serviceProfile := "profile"
  expiry := 100
  assocImpu := ["sip:a@example.com"]
  impis := ["d@example.com"]
  ecfs := []
  ccfs := []

/-- A store with the subscriber. -/
def exampleStore : ImpuStore where
  impus := (CasTable.empty.put "sip:d@example.com" (.decoded (.default exampleRecord))).put
    "sip:a@example.com" (.decoded (.associated "sip:d@example.com" 100))
  mappings := CasTable.empty.put "d@example.com"
    (.decoded { defaultImpus := ["sip:d@example.com"], expiry := 100 })

/-- A node on which the subscriber is registered. -/
def exampleRegisteredNode : Node :=
  { exampleNode with world := { stores := fun _ => exampleStore, clock := fun _ => 0 } }

theorem value?_exampleStore (key : String) : exampleStore.impus.value? key =
    if key = "sip:a@example.com" then some (.decoded (.associated "sip:d@example.com" 100))
    else if key = "sip:d@example.com" then some (.decoded (.default exampleRecord)) else none := by
  show (CasTable.put _ _ _).value? key = _
  rw [CasTable.put_value?, CasTable.put_value?]
  rfl

theorem defaultAt_exampleStore (D : String) :
    exampleStore.defaultAt D = if D = "sip:d@example.com" then some exampleRecord else none := by
  rw [ImpuStore.defaultAt, value?_exampleStore]
  by_cases ha : D = "sip:a@example.com"
  · simp [ha]
  · by_cases hD : D = "sip:d@example.com" <;> simp [ha, hD]

theorem value?_exampleStore_mappings (impi : String) : exampleStore.mappings.value? impi =
    if impi = "d@example.com" then
      some (.decoded { defaultImpus := ["sip:d@example.com"], expiry := 100 }) else none := by
  show (CasTable.put _ _ _).value? impi = _
  rw [CasTable.put_value?]
  rfl

theorem consistent_exampleStore : Consistent exampleDirectory exampleStore where
  decodable :=
    { impus := fun key => by
        rw [value?_exampleStore]
        split
        · simp
        · split <;> simp
      mappings := fun key => by
        rw [value?_exampleStore_mappings]
        split <;> simp }
  listed D d h := by
    rw [defaultAt_exampleStore] at h
    split at h
    · rename_i hD
      cases h
      subst hD
      refine ⟨by decide, fun a => ?_⟩
      simp only [exampleRecord, exampleDirectory, List.mem_singleton]
      by_cases ha : a = "sip:a@example.com" <;> by_cases hd : a = "sip:d@example.com" <;> simp [ha, hd]
    · cases h
  pointsAt a D := by
    simp only [ImpuStore.PointsAt, value?_exampleStore, defaultAt_exampleStore, exampleDirectory]
    by_cases ha : a = "sip:a@example.com"
    · by_cases hD : D = "sip:d@example.com" <;> simp [ha, hD, eq_comm]
    · by_cases hd : a = "sip:d@example.com"
      · simp [hd, eq_comm]
      · simp [ha, hd]
  maps impi D := by
    simp only [ImpuStore.Maps, value?_exampleStore_mappings, defaultAt_exampleStore]
    by_cases himpi : impi = "d@example.com" <;> by_cases hD : D = "sip:d@example.com" <;>
      simp [himpi, hD, exampleRecord]
  leads impi cas m h := by
    have hvalue := CasTable.value?_of_cells h
    rw [value?_exampleStore_mappings] at hvalue
    split at hvalue
    · cases hvalue
      simp
    · cases hvalue

/-- The node of another site, with another one of the stores as its local one. -/
def exampleOtherConfig : RegDataConfig :=
  { exampleNodeConfig with cache := { localStore := 1, remoteStores := [2, 0] } }

/-- A deployment of nodes with three stores. -/
def exampleDeployment : Deployment where
  stores := [0, 1, 2]
  distinct := by decide
  px := exampleNodeConfig.px
  dir := exampleDirectory
  wildcards := Set.univ

/-- The sites of the example. -/
theorem hasSite_example : exampleDeployment.HasSite exampleNodeConfig ∧
    exampleDeployment.HasSite exampleOtherConfig :=
  ⟨⟨by decide, rfl⟩, ⟨by decide, rfl⟩⟩

theorem inSync_exampleNode : exampleDeployment.InSync exampleNode fun _ => none :=
  hasSite_example.1.inSync sound_exampleNode

theorem inSync_exampleRegisteredNode :
    exampleDeployment.InSync exampleRegisteredNode exampleStore.table where
  represents _ _ := ⟨consistent_exampleStore, rfl⟩
  truthful := sound_exampleNode.truthful

theorem lists_exampleStore (D : String) :
    exampleStore.table.Lists "d@example.com" D ↔ D = "sip:d@example.com" := by
  refine (Table.lists_iff_maps consistent_exampleStore _ _).trans
    ((consistent_exampleStore.maps _ _).trans ?_)
  rw [defaultAt_exampleStore]
  by_cases hD : D = "sip:d@example.com" <;> simp [hD, exampleRecord]

/-- An RTR of the subscriber, by the IMPI. -/
def exampleNodeRtr : Rtr where
  deregistrationReason := serverChange
  impi := "d@example.com"
  associatedIdentities := []
  impus := []

/-- A push of new charging addresses. -/
def exampleNodePpr : Ppr where
  impi := "d@example.com"
  userData := some "profile"
  chargingAddrs := some { ccfs := ["ccf"], ecfs := [] }

theorem allowed_example {requests : List SiteRequest}
    (h : ∀ r ∈ requests, (r.site = exampleNodeConfig ∨ r.site = exampleOtherConfig) ∧
      ∀ ppr, r.request = .push ppr → ppr = exampleNodePpr) :
    ∀ r ∈ requests, r.Allowed exampleDeployment := by
  rintro ⟨site, request⟩ hr
  obtain ⟨hsite, hpush⟩ := h _ hr
  refine ⟨?_, ?_⟩
  · rcases hsite with rfl | rfl
    · exact hasSite_example.1
    · exact hasSite_example.2
  · cases request with
    | regData req | readRegData req => exact Set.mem_univ _
    | termination rtr => trivial
    | push ppr =>
      obtain rfl := hpush ppr rfl
      rcases hsite with rfl | rfl <;>
      · rintro _ ⟨⟩ D rfl -
        exact describes_exampleDirectory

/-- The subscriber registers again at one site, has new charging addresses at the other, is looked up
there, and is terminated at the first. -/
def exampleRequests : List SiteRequest :=
  [⟨exampleNodeConfig,
    .regData (exampleRegDataRequest .put "/impu/sip:a@example.com/reg-data" "reg")⟩,
   ⟨exampleOtherConfig, .push exampleNodePpr⟩,
   ⟨exampleOtherConfig,
    .readRegData (exampleRegDataRequest .get "/impu/sip:a@example.com/reg-data" "")⟩,
   ⟨exampleNodeConfig, .termination exampleNodeRtr⟩]

end Homestead

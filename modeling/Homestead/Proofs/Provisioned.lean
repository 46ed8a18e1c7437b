import Homestead.Proofs.AuthTasks
import Homestead.Proofs.FailureReplies
import Homestead.Proofs.ShownLater

/-!
# `Homestead.Proofs.Provisioned`: a deployment without an HSS

A deployment whose SAAs come from the database that homestead-prov has provisioned. `Rows` is what
the database holds; a read of it may fail at any time. `GetRegData.foldl_takeColumn` says what a row
comes to, and `Deployment.Provisioned` is the invariant: each registration in the stores is one of a
row of the subscriber.

* `only_provisioned_is_shown`: in every run a lookup shows what a row of the subscriber has, and an
  identity without a row is not served.
* `provisioned_is_registered`: while the database can be read, a registration of an identity that
  has a row is accepted, and every identity of the subscriber leads to it from then on.
-/

set_option autoImplicit false

namespace Homestead

/-! ### Rows -/

/-- What a row has under a name, without empty values. -/
def nonemptyValues (name : String) (cols : List Column) : List String :=
  (cols.filter fun col => decide (col.name = name ∧ col.value ≠ "")).map Column.value

namespace HsProvStore.GetRegData

/-- The data of a row: primary addresses before secondary ones. -/
def ofRow (cols : List Column) : GetRegData where
  xml := lastValue "ims_subscription_xml" cols ""
  chargingAddrs :=
    { ccfs := (nonemptyValues "primary_ccf" cols).reverse ++ nonemptyValues "secondary_ccf" cols
      ecfs := (nonemptyValues "primary_ecf" cols).reverse ++ nonemptyValues "secondary_ecf" cols }

/-- The loop over the columns, from any data. -/
theorem foldl_takeColumn (cols : List Column) (data : GetRegData) :
    cols.foldl takeColumn data =
      { xml := lastValue "ims_subscription_xml" cols data.xml
        chargingAddrs :=
          { ccfs := (nonemptyValues "primary_ccf" cols).reverse ++ data.chargingAddrs.ccfs ++
              nonemptyValues "secondary_ccf" cols
            ecfs := (nonemptyValues "primary_ecf" cols).reverse ++ data.chargingAddrs.ecfs ++
              nonemptyValues "secondary_ecf" cols } } := by
  induction cols generalizing data with
  | nil => simp [lastValue, nonemptyValues]
  | cons col cols ih =>
    rw [List.foldl_cons, ih]
    obtain ⟨name, value⟩ := col
    unfold takeColumn lastValue nonemptyValues
    by_cases h₁ : name = "ims_subscription_xml"
    · simp [h₁]
    by_cases hvalue : value = ""
    · simp [h₁, hvalue]
    by_cases h₂ : name = "primary_ccf"
    · simp [h₂, hvalue]
    by_cases h₃ : name = "secondary_ccf"
    · simp [h₃, hvalue]
    by_cases h₄ : name = "primary_ecf"
    · simp [h₄, hvalue]
    by_cases h₅ : name = "secondary_ecf" <;> simp [h₁, h₂, h₃, h₄, h₅, hvalue]

end HsProvStore.GetRegData

/-- What the database holds, by public identity. -/
abbrev Rows := String → Option (List Column)

namespace HsProvHssConnection

/-- The row of a public identity. -/
def row (conn : HsProvHssConnection) (publicId : String) : Except CassandraError (List Column) :=
  conn.haGetColumns "impu" publicId
    ["ims_subscription_xml", "primary_ccf", "secondary_ccf", "primary_ecf", "secondary_ecf"]

/-- The connection reads the rows, unless a read fails. -/
structure Reads (conn : HsProvHssConnection) (rows : Rows) : Prop where
  ok : ∀ id cols, conn.row id = .ok cols → rows id = some cols
  notFound : ∀ id, conn.row id = .error .notFound → rows id = none

theorem perform_eq (conn : HsProvHssConnection) (publicId : String) :
    HsProvStore.GetRegData.perform conn.haGetColumns publicId
      = (conn.row publicId).map HsProvStore.GetRegData.ofRow := by
  unfold HsProvStore.GetRegData.perform
  rw [← row]
  cases conn.row publicId with
  | error e => rfl
  | ok cols =>
    show Except.ok _ = Except.ok _
    rw [HsProvStore.GetRegData.foldl_takeColumn, HsProvStore.GetRegData.ofRow]
    simp

/-- An SAR that assigns is answered from the row. -/
theorem sendServerAssignmentRequest_of_assigns (conn : HsProvHssConnection)
    {request : ServerAssignmentRequest} (h : request.type.Assigns) :
    conn.toDatabase.sendServerAssignmentRequest request
      = serverAssignmentAnswer ((conn.row request.impu).map HsProvStore.GetRegData.ofRow) := by
  rw [← perform_eq]
  unfold toDatabase
  dsimp only
  split
  · rfl
  · rfl
  · rfl
  · rename_i hne
    cases htype : request.type <;> rw [htype] at h <;> first | exact h.elim | contradiction

end HsProvHssConnection

namespace Rows

/-- The answer to the SAR comes from the rows. -/
def Answers (rows : Rows) (request : ServerAssignmentRequest) (saa : ServerAssignmentAnswer) : Prop :=
  ∃ conn : HsProvHssConnection, conn.Reads rows ∧
    saa = conn.toDatabase.sendServerAssignmentRequest request

/-- The three answers to an SAR that assigns. -/
theorem Answers.cases {rows : Rows} {request : ServerAssignmentRequest} {saa : ServerAssignmentAnswer}
    (h : rows.Answers request saa) (hassigns : request.type.Assigns) :
    (∃ cols, rows request.impu = some cols ∧
      saa = { result := .success
              chargingAddresses := (HsProvStore.GetRegData.ofRow cols).chargingAddrs
              serviceProfile := (HsProvStore.GetRegData.ofRow cols).xml }) ∨
    (rows request.impu = none ∧ saa = { result := .notFound }) ∨ saa = { result := .timeout } := by
  obtain ⟨conn, hreads, rfl⟩ := h
  rw [conn.sendServerAssignmentRequest_of_assigns hassigns]
  cases hrow : conn.row request.impu with
  | ok cols => exact .inl ⟨cols, hreads.ok _ _ hrow, rfl⟩
  | error e =>
    cases e with
    | notFound => exact .inr (.inl ⟨hreads.notFound _ hrow, rfl⟩)
    | other => exact .inr (.inr rfl)

/-- The rows have the profiles of the subscribers. -/
structure Describe (rows : Rows) (dir : Directory) (px : XmlParser) : Prop where
  known : ∀ id cols, rows id = some cols → ∃ D, dir.defaultOf id = some D ∧
    dir.Describes px (HsProvStore.GetRegData.ofRow cols).xml D
  unknown : ∀ id, rows id = none → dir.defaultOf id = none

/-- The registration is one of a row of the subscriber `D`. -/
def Registers (rows : Rows) (dir : Directory) (D : String) (r : Registration) : Prop :=
  ∃ id cols, dir.defaultOf id = some D ∧ rows id = some cols ∧
    r.profile = (HsProvStore.GetRegData.ofRow cols).xml ∧
    r.chargingAddresses = (HsProvStore.GetRegData.ofRow cols).chargingAddrs

end Rows

/-! ### Deployments -/

/-- The invariant of a deployment whose SAAs come from the rows. -/
structure Deployment.Provisioned (d : Deployment) (rows : Rows) (n : Node) (tbl : Table) : Prop where
  represents : ∀ s ∈ d.stores, (n.world.stores s).Represents d.dir tbl
  entries : ∀ D r, tbl D = some r → rows.Registers d.dir D r
  database : ∀ i request, rows.Answers request ((n.outside i).saa request)

section Provisioned

variable {d : Deployment} {dir : Directory} {rows : Rows} {n n' : Node} {tbl : Table}

/-- The database tells the truth about requests without a wildcard. -/
theorem Deployment.Provisioned.inSync (hrows : rows.Describe d.dir d.px) (hplain : d.wildcards = {""})
    (h : d.Provisioned rows n tbl) : d.InSync n tbl where
  represents := h.represents
  truthful i request hwildcard := by
    rw [hplain] at hwildcard
    have hpublicId : request.publicId = request.impu := if_pos hwildcard
    refine ⟨fun hrenamed => ?_, fun hsuccess hassigns => ?_⟩
    · obtain ⟨conn, -, hsaa⟩ := h.database i request
      rw [hsaa] at hrenamed
      exact absurd hrenamed (conn.sendServerAssignmentRequest_ne_newWildcard request)
    · rw [hpublicId]
      rcases (h.database i request).cases hassigns with ⟨cols, hcols, hsaa⟩ | ⟨-, hsaa⟩ | hsaa
      · rw [hsaa]
        exact hrows.known _ _ hcols
      · rw [hsaa] at hsuccess
        cases hsuccess
      · rw [hsaa] at hsuccess
        cases hsuccess

/-- What was seen of the SARs, and what is left of the deployment. -/
structure Node.Heard (n n' : Node) : Prop where
  outside : ∃ k, ∀ i, n'.outside i = n.outside (i + k)
  seen : ∃ seen, n'.seen = n.seen ++ seen ∧ ∀ request saa, .sar request saa ∈ seen →
    ∃ i, saa = (n.outside i).saa request

namespace Node.Heard

theorem refl (n : Node) : n.Heard n := ⟨⟨0, fun _ => rfl⟩, [], by simp, by simp⟩

theorem trans {n n₁ n₂ : Node} (h₁ : n.Heard n₁) (h₂ : n₁.Heard n₂) : n.Heard n₂ := by
  obtain ⟨k₁, hk₁⟩ := h₁.outside
  obtain ⟨k₂, hk₂⟩ := h₂.outside
  obtain ⟨seen₁, hseen₁, hall₁⟩ := h₁.seen
  obtain ⟨seen₂, hseen₂, hall₂⟩ := h₂.seen
  refine ⟨⟨k₂ + k₁, fun i => ?_⟩, seen₁ ++ seen₂, ?_, fun request saa hmem => ?_⟩
  · rw [hk₂, hk₁, Nat.add_assoc]
  · rw [hseen₂, hseen₁, List.append_assoc]
  · rcases List.mem_append.mp hmem with hmem | hmem
    · exact hall₁ request saa hmem
    · obtain ⟨i, hi⟩ := hall₂ request saa hmem
      exact ⟨i + k₁, by rw [hi, hk₁]⟩

theorem withWorld (n : Node) (w : World) : n.Heard { n with world := w } :=
  ⟨⟨0, fun _ => rfl⟩, [], by simp, by simp⟩

theorem next (n : Node) : n.Heard n.next := ⟨⟨1, fun _ => rfl⟩, [], by simp [Node.next], by simp⟩

theorem saw (n : Node) {x : Observation}
    (hx : ∀ request saa, x = .sar request saa → ∃ i, saa = (n.outside i).saa request) :
    n.Heard (n.saw x) :=
  ⟨⟨0, fun _ => rfl⟩, [x], rfl, fun request saa hmem =>
    hx request saa (List.mem_singleton.mp hmem).symm⟩

theorem of_call (o : TaskCall) (n : Node) : n.Heard (serveTask o n).2 := by
  cases o with
  | store call => exact withWorld n _
  | callback cb =>
    cases cb with
    | onGetRegDataSuccess irs => exact saw n (by rintro _ _ ⟨⟩)
    | onGetRegDataFailure rc => exact saw n (by rintro _ _ ⟨⟩)
    | _ => exact refl n
  | sendServerAssignmentRequest request =>
    exact ⟨⟨1, fun _ => rfl⟩, [_], rfl, fun request' saa hmem => by
      cases List.mem_singleton.mp hmem
      exact ⟨0, rfl⟩⟩
  | deregisterBindings _ _ _ | changeAssociatedIdentities _ _ =>
    exact (next n).trans (saw n.next (by rintro _ _ ⟨⟩))
  | sendHttpReply _ _ | sendRta _ _ | sendPpa _ => exact saw n (by rintro _ _ ⟨⟩)
  | createImplicitRegistrationSet | buildClearwaterRegDataXml _ => exact next n
  | addWork _ | recordPenalty | deleteThis => exact refl n

end Node.Heard

/-- Every SAR of a run was answered by the deployment. -/
theorem heard_of_eval {α : Type} {p : TaskProg α} {a : α} (he : Eval serveTask p n a n') :
    n.Heard n' :=
  he.frame Node.Heard.refl (fun _ _ _ => .trans) Node.Heard.of_call

/-- The SAA of a request, as it changes the table. -/
theorem registers_after {privateId : String → String} {tbl : Table} {q : Inquiry}
    {request : ServerAssignmentRequest} {saa : ServerAssignmentAnswer}
    (hentries : ∀ D r, tbl D = some r → rows.Registers dir D r) (hpublicId : q.publicId = request.impu)
    (hanswer : rows.Answers request saa) {D : String} {r : Registration}
    (hr : tbl.after privateId q (dir.defaultOf q.publicId) saa request.type D = some r) :
    rows.Registers dir D r := by
  by_cases hD : dir.defaultOf q.publicId = some D
  · -- An SAR that assigns leaves the entry, or makes it that of its row.
    have hset : ∀ registered impis, request.type.Assigns →
        (if saa.result = .success then
          tbl.set (some (saa.registration registered impis)) (some D) else tbl) D = some r →
        rows.Registers dir D r := by
      intro registered impis hassigns hr
      rcases hanswer.cases hassigns with ⟨cols, hcols, rfl⟩ | ⟨-, rfl⟩ | rfl
      · rw [if_pos rfl, Table.set_self] at hr
        cases hr
        exact ⟨request.impu, cols, hpublicId ▸ hD, hcols, rfl, rfl⟩
      · exact hentries D r hr
      · exact hentries D r hr
    -- Any other SAR leaves the entry or removes it.
    have hremove : (if saa.result = .serverUnavailable then tbl else tbl.set none (some D)) D = some r →
        rows.Registers dir D r := by
      intro hr
      split at hr
      · exact hentries D r hr
      · rw [Table.set_self] at hr
        cases hr
    rw [hD] at hr
    cases htype : request.type <;> rw [htype] at hr hset <;>
      first
      | exact hset _ _ trivial hr
      | exact hremove hr
      | exact hentries D r hr
  · rw [Table.after_ne hD] at hr
    exact hentries D r hr

/-- A step of the registrar whose SAAs come from the rows. -/
theorem RegistrarStep.registers {privateId : String → String} {tbl tbl' : Table} {method : HttpMethod}
    {q : Inquiry} {seen : List Observation}
    (h : RegistrarStep privateId dir tbl method q seen tbl') (hwildcard : q.wildcard = "")
    (hentries : ∀ D r, tbl D = some r → rows.Registers dir D r)
    (hanswers : ∀ request saa, .sar request saa ∈ seen → rows.Answers request saa) :
    ∀ D r, tbl' D = some r → rows.Registers dir D r := by
  cases h with
  | asked request saa reply hmethod hsends hreply =>
    intro D r hr
    refine registers_after hentries ?_ (hanswers request saa (by simp)) hr
    rw [hsends.impu]
    exact if_pos hwildcard
  | _ => exact hentries

/-- Without pushes, whatever the request is. -/
theorem NodeStep.registers {cfg : RegDataConfig} {tbl' : Table} {request : NodeRequest}
    {seen : List Observation} (h : NodeStep cfg dir tbl request seen tbl')
    (hallowed : request.Allowed cfg dir {""}) (hpush : ∀ ppr, request ≠ .push ppr)
    (hentries : ∀ D r, tbl D = some r → rows.Registers dir D r)
    (hanswers : ∀ request saa, .sar request saa ∈ seen → rows.Answers request saa) :
    ∀ D r, tbl' D = some r → rows.Registers dir D r := by
  cases h with
  | regData req hstep => exact hstep.registers hallowed hentries hanswers
  | readRegData req hmethod hstep => exact hstep.registers hallowed hentries hanswers
  | badMethod req hmethod => exact hentries
  | termination rtr hstep =>
    cases hstep with
    | terminated Ds sprout hreason hne hconcerns =>
      intro D r hr
      unfold Table.without at hr
      split at hr
      · cases hr
      · exact hentries D r hr
    | _ => exact hentries
  | push ppr hstep => exact absurd rfl (hpush ppr)

/-- One request. -/
theorem serves_provisioned (hrows : rows.Describe d.dir d.px) (hplain : d.wildcards = {""})
    (hn : d.Provisioned rows n tbl) {r : SiteRequest} (hallowed : r.Allowed d)
    (hpush : ∀ ppr, r.request ≠ .push ppr) :
    ∃ n' seen tbl', Eval serveTask (r.request.run r.site) n () n' ∧ n'.seen = n.seen ++ seen ∧
      d.Provisioned rows n' tbl' ∧
      (∀ request saa, .sar request saa ∈ seen → ∃ i, saa = (n.outside i).saa request) ∧
      NodeStep r.site d.dir tbl r.request seen tbl' := by
  obtain ⟨n', w, seen, tbl', he, hafter, hn', hstep⟩ :=
    SiteRequest.serves_run (hn.inSync hrows hplain) hallowed
  obtain ⟨⟨k, hk⟩, seen', hseen', hheard⟩ := heard_of_eval he
  obtain rfl : seen = seen' := List.append_cancel_left (hafter.seen.symm.trans hseen')
  refine ⟨n', seen, tbl', he, hseen', ⟨hn'.represents, ?_, fun i request => hk i ▸ hn.database _ _⟩,
    hheard, hstep⟩
  refine hstep.registers (hplain ▸ hallowed.request) hpush hn.entries fun request saa hmem => ?_
  obtain ⟨i, rfl⟩ := hheard request saa hmem
  exact hn.database i request

/-- Requests in turn. -/
theorem eval_provisioned (hrows : rows.Describe d.dir d.px) (hplain : d.wildcards = {""})
    {requests : List SiteRequest} (hallowed : ∀ r ∈ requests, r.Allowed d)
    (hpush : ∀ r ∈ requests, ∀ ppr, r.request ≠ .push ppr) (hn : d.Provisioned rows n tbl) :
    ∃ n' tbl', Eval serveTask (serveSites requests) n () n' ∧ d.Provisioned rows n' tbl' := by
  induction requests generalizing n tbl with
  | nil => exact ⟨n, tbl, .ret _ _, hn⟩
  | cons r requests ih =>
    obtain ⟨n₁, seen, tbl₁, he, -, hn₁, -⟩ := serves_provisioned hrows hplain hn
      (hallowed r List.mem_cons_self) (hpush r List.mem_cons_self)
    obtain ⟨n', tbl', he', hn'⟩ := ih (fun r' hr' => hallowed r' (List.mem_cons_of_mem _ hr'))
      (fun r' hr' => hpush r' (List.mem_cons_of_mem _ hr')) hn₁
    exact ⟨n', tbl', he.bind he', hn'⟩

/-- The SAR of a registration or of a call. -/
theorem RegistrarStep.sar_assigns {privateId : String → String} {tbl tbl' : Table} {q : Inquiry}
    {seen : List Observation} (h : RegistrarStep privateId dir tbl .put q seen tbl')
    (htype : q.type = .reg ∨ q.type = .call) {request : ServerAssignmentRequest}
    {saa : ServerAssignmentAnswer} (hmem : .sar request saa ∈ seen) :
    request.impu = q.impu ∧ request.type.Assigns := by
  cases h with
  | asked request' saa' reply hmethod hsends hreply =>
    obtain ⟨rfl, rfl⟩ := eq_of_mem_asked hreply hmem
    refine ⟨hsends.impu, ?_⟩
    have hasks := hsends.asks
    generalize dir.find tbl q.publicId = r? at hasks
    generalize request.type = type at hasks ⊢
    cases hasks with
    | reRegistration | registration | unregisteredUser => exact trivial
    | deregistration r hother | authFailure r? hother =>
      rcases htype with htype | htype <;> rw [htype] at hother <;> cases hother
  | fromTable r reply hmethod hfind hknown hreply =>
    simp only [List.mem_cons, List.not_mem_nil, or_false, reduceCtorEq, false_or] at hmem
    exact absurd hmem.symm (hreply.ne_sar _ _)
  | get r reply hmethod | getNone hmethod => cases hmethod
  | notRegistered | rejected => simp at hmem

/-- A registration whose SAR succeeds is answered with 200. -/
theorem RegistrarStep.accepted {privateId : String → String} {tbl tbl' : Table} {q : Inquiry}
    {seen : List Observation} (h : RegistrarStep privateId dir tbl .put q seen tbl')
    (htype : q.type = .reg)
    (haccepted : ∀ request saa, .sar request saa ∈ seen → saa.result = .success) :
    ∃ reply ∈ seen, IsReply httpOk reply := by
  cases h with
  | asked request saa reply hmethod hsends hreply =>
    rw [haccepted request saa (by simp)] at hreply
    exact ⟨reply, by simp, hreply⟩
  | fromTable r reply hmethod hfind hknown hreply => exact ⟨reply, by simp, hreply⟩
  | get r reply hmethod | getNone hmethod => cases hmethod
  | notRegistered hmethod hfind hdereg =>
    rw [htype] at hdereg
    cases hdereg
  | rejected rc hrc =>
    rcases hrc with ⟨hmethod, -⟩ | ⟨-, hunknown, -⟩
    · cases hmethod
    · rw [htype] at hunknown
      cases hunknown

/-- What a lookup shows is the registration that the identity leads to. -/
theorem RegistrarStep.find_of_found {privateId : String → String} {tbl tbl' : Table}
    {method : HttpMethod} {q : Inquiry} {seen : List Observation}
    (h : RegistrarStep privateId dir tbl method q seen tbl') {r : Registration}
    (hmem : .found r ∈ seen) : dir.find tbl q.publicId = some r := by
  have hfirst : ∀ {r' : Registration} {rest : List Observation},
      (∀ x ∈ rest, x ≠ .found r) → .found r ∈ .found r' :: rest → r' = r := by
    intro r' rest hrest hmem
    rcases List.mem_cons.mp hmem with heq | hmem
    · cases heq
      rfl
    · exact absurd rfl (hrest _ hmem)
  cases h with
  | get r' reply hmethod hfind hreply =>
    rw [hfind, hfirst (by simpa using hreply.ne_found r) hmem]
  | fromTable r' reply hmethod hfind hknown hreply =>
    rw [hfind, hfirst (by simpa using hreply.ne_found r) hmem]
  | asked request saa reply hmethod hsends hreply =>
    cases hfind : dir.find tbl q.publicId with
    | none =>
      rw [hfind] at hmem
      simp only [lookedUp, List.mem_cons, List.not_mem_nil, or_false, reduceCtorEq, false_or] at hmem
      exact absurd hmem.symm (hreply.ne_found r)
    | some r' =>
      rw [hfind] at hmem
      rw [hfirst (by simpa using hreply.ne_found r) hmem]
  | getNone | notRegistered | rejected => simp at hmem

/-- A request for an identity without a row, that wants a profile, is not served. -/
theorem RegistrarStep.unserved {privateId : String → String} {tbl tbl' : Table} {method : HttpMethod}
    {q : Inquiry} {seen : List Observation}
    (h : RegistrarStep privateId dir tbl method q seen tbl') (hfind : dir.find tbl q.publicId = none)
    (hrow : rows q.impu = none)
    (hwants : method = .get ∨ method = .put ∧ (q.type = .reg ∨ q.type = .call))
    (hanswers : ∀ request saa, .sar request saa ∈ seen → rows.Answers request saa) {rc : HttpCode}
    {content : String} (hmem : .reply rc content ∈ seen) :
    content = "" ∧ (rc = httpNotFound ∨ rc = httpGatewayTimeout) := by
  have hstep := h
  cases h with
  | asked request saa reply hmethod hsends hreply =>
    obtain ⟨-, htype⟩ := hwants.resolve_left (by simp [hmethod])
    subst hmethod
    have hsar : Observation.sar request saa
        ∈ [lookedUp (dir.find tbl q.publicId), .sar request saa, reply] := by simp
    obtain ⟨himpu, hassigns⟩ := hstep.sar_assigns htype hsar
    rw [hfind] at hmem
    simp only [lookedUp, List.mem_cons, List.not_mem_nil, or_false, reduceCtorEq, false_or] at hmem
    subst hmem
    rcases (hanswers request saa (by simp)).cases hassigns with ⟨cols, hcols, -⟩ | ⟨-, rfl⟩ | rfl
    · rw [himpu, hrow] at hcols
      cases hcols
    · cases hreply
      exact ⟨rfl, .inl rfl⟩
    · cases hreply
      exact ⟨rfl, .inr rfl⟩
  | getNone =>
    obtain ⟨rfl, rfl⟩ : rc = httpNotFound ∧ content = "" := by simpa using hmem
    exact ⟨rfl, .inl rfl⟩
  | get r reply hmethod hr | fromTable r reply hmethod hr =>
    rw [hfind] at hr
    cases hr
  | notRegistered hmethod hnone hdereg =>
    obtain ⟨-, htype⟩ := hwants.resolve_left (by simp [hmethod])
    rcases htype with htype | htype <;> rw [htype] at hdereg <;> cases hdereg
  | rejected rc' hrc =>
    rcases hwants with rfl | ⟨rfl, htype⟩
    · rcases hrc with ⟨hmethod, -⟩ | ⟨hmethod, -⟩ <;> cases hmethod
    · rcases hrc with ⟨hmethod, -⟩ | ⟨-, hunknown, -⟩
      · cases hmethod
      · rcases htype with htype | htype <;> rw [htype] at hunknown <;> cases hunknown

/-- A deployment without an HSS serves from the database only. Whatever was requested of its nodes
before, without a PPR, a lookup shows the profile and the charging addresses of a row of the
subscriber, and a request that wants the profile of an identity without a row is answered with an
error. -/
theorem only_provisioned_is_shown (hrows : rows.Describe d.dir d.px) (hplain : d.wildcards = {""})
    (requests : List SiteRequest) (cfg : RegDataConfig) (last : HttpRequest)
    (hallowed : ∀ r ∈ requests ++ [⟨cfg, .regData last⟩], r.Allowed d)
    (hpush : ∀ r ∈ requests, ∀ ppr, r.request ≠ .push ppr) (hn : d.Provisioned rows n tbl) :
    ∃ n₁ n' seen tbl', Eval serveTask (serveSites requests) n () n₁ ∧
      Eval serveTask (ImpuRegDataTask.run cfg last) n₁ () n' ∧ n'.seen = n₁.seen ++ seen ∧
      d.Provisioned rows n' tbl' ∧
      (∀ r, .found r ∈ seen → ∃ D, d.dir.defaultOf (cfg.inquiry last).2.impu = some D ∧
        rows.Registers d.dir D r) ∧
      (rows (cfg.inquiry last).2.impu = none → last.method = .get ∨ last.method = .put ∧
          ((cfg.inquiry last).2.type = .reg ∨ (cfg.inquiry last).2.type = .call) →
        ∀ rc content, .reply rc content ∈ seen →
          content = "" ∧ (rc = httpNotFound ∨ rc = httpGatewayTimeout)) := by
  obtain ⟨n₁, tbl₁, he₁, hn₁⟩ := eval_provisioned hrows hplain
    (fun r hr => hallowed r (List.mem_append_left _ hr)) hpush hn
  have hlast := hallowed _ (List.mem_append_right _ (List.mem_singleton_self _))
  obtain ⟨n', seen, tbl', he, hseen, hn', hheard, hstep⟩ :=
    serves_provisioned hrows hplain hn₁ hlast nofun
  have hwildcard : (cfg.inquiry last).2.wildcard ∈ ({""} : Set String) := hplain ▸ hlast.request
  have hpublicId : (cfg.inquiry last).2.publicId = (cfg.inquiry last).2.impu := if_pos hwildcard
  cases hstep with
  | regData req hstep =>
    refine ⟨n₁, n', seen, tbl', he₁, he, hseen, hn', fun r hmem => ?_,
      fun hrow hwants rc content hmem => ?_⟩
    · have hfind := hstep.find_of_found hmem
      obtain ⟨D, hdir, hr⟩ := Option.bind_eq_some_iff.mp hfind
      exact ⟨D, hpublicId ▸ hdir, hn₁.entries D r hr⟩
    · have hfind : d.dir.find tbl₁ (cfg.inquiry last).2.publicId = none := by
        rw [hpublicId]
        exact Directory.find_of_none (hrows.unknown _ hrow) _
      refine hstep.unserved hfind hrow hwants (fun request saa hsar => ?_) hmem
      obtain ⟨i, rfl⟩ := hheard request saa hsar
      exact hn₁.database i request

/-- A registration of an identity with a row, whose SARs the database has answered. -/
theorem RegistrarStep.registered_of_answers {privateId : String → String} {tbl' : Table} {q : Inquiry}
    {seen : List Observation} (h : RegistrarStep privateId dir tbl .put q seen tbl')
    (htype : q.type = .reg) (hwildcard : q.wildcard = "") {D : String}
    (hD : dir.defaultOf q.publicId = some D)
    (hunknown : ∀ id, rows id = none → dir.defaultOf id = none)
    (hentries : ∀ D r, tbl D = some r → rows.Registers dir D r)
    (hanswers : ∀ request saa, .sar request saa ∈ seen →
      rows.Answers request saa ∧ saa.result ≠ .timeout) :
    (∃ reply ∈ seen, IsReply httpOk reply) ∧
      ∃ r, tbl' D = some r ∧ r.registered = true ∧
        r.impis ⊆ insert (q.impiFor privateId (tbl D)) ((tbl D).elim ∅ Registration.impis) ∧
        rows.Registers dir D r := by
  have hpublicId : q.publicId = q.impu := if_pos hwildcard
  have haccepted : ∀ request saa, .sar request saa ∈ seen → saa.result = .success := by
    intro request saa hmem
    obtain ⟨himpu, hassigns⟩ := h.sar_assigns (.inl htype) hmem
    obtain ⟨hanswer, hread⟩ := hanswers request saa hmem
    rcases hanswer.cases hassigns with ⟨cols, -, rfl⟩ | ⟨hnone, -⟩ | rfl
    · rfl
    · rw [hpublicId, ← himpu, hunknown _ hnone] at hD
      cases hD
    · exact absurd rfl hread
  obtain ⟨r, hr, hregistered, himpis, -⟩ := h.registered htype hD haccepted
  exact ⟨h.accepted htype haccepted, r, hr, hregistered, himpis,
    h.registers hwildcard hentries (fun request saa hmem => (hanswers request saa hmem).1) D r hr⟩

end Provisioned

/-! ### A deployment with a database -/

/-- The two identities of the subscriber have the same row. -/
def exampleRows : Rows := fun id =>
  if (exampleDirectory.defaultOf id).isSome then
    some [⟨"secondary_ccf", "ccf2"⟩, ⟨"ims_subscription_xml", "profile"⟩, ⟨"primary_ccf", "ccf1"⟩]
  else none

def exampleRowsConnection : HsProvHssConnection where
  serverName := "sip:scscf.example.com"
  schemes := exampleImpiConfig.schemes
  haGetColumns _ key _ := (exampleRows key).elim (.error .notFound) .ok

def exampleProvisionedNode : Node where
  world := exampleNode.world
  outside _ := { exampleOutside with
    saa := exampleRowsConnection.toDatabase.sendServerAssignmentRequest }
  seen := []

theorem reads_exampleRows : exampleRowsConnection.Reads exampleRows where
  ok id cols h := by
    cases hrow : exampleRows id <;> simp_all [HsProvHssConnection.row, exampleRowsConnection]
  notFound id h := by
    cases hrow : exampleRows id <;> simp_all [HsProvHssConnection.row, exampleRowsConnection]

theorem describe_exampleRows : exampleRows.Describe exampleDirectory exampleNodeConfig.px where
  known id cols h := by
    unfold exampleRows at h
    split at h
    · rename_i hknown
      cases h
      obtain ⟨D, hD⟩ := Option.isSome_iff_exists.mp hknown
      have hself : D = "sip:d@example.com" := by
        simp only [exampleDirectory] at hD
        split at hD <;> cases hD
        rfl
      rw [hself] at hD
      exact ⟨_, hD, describes_exampleDirectory⟩
    · cases h
  unknown id h := by
    unfold exampleRows at h
    split at h
    · cases h
    · rename_i hunknown
      simpa using hunknown

/-- The deployment of the example, without wildcards. -/
def exampleProvisioned : Deployment := { exampleDeployment with wildcards := {""} }

theorem provisioned_exampleProvisioned :
    exampleProvisioned.Provisioned exampleRows exampleProvisionedNode fun _ => none where
  represents _ _ := ⟨consistent_empty _, rfl⟩
  entries D r h := by cases h
  database i request := ⟨exampleRowsConnection, reads_exampleRows, rfl⟩

/-- The bodies of the example have no wildcard. -/
theorem allowed_exampleProvisioned {requests : List SiteRequest}
    (h : ∀ r ∈ requests, (r.site = exampleNodeConfig ∨ r.site = exampleOtherConfig) ∧
      ∃ req, r.request = .regData req) : ∀ r ∈ requests, r.Allowed exampleProvisioned := by
  rintro ⟨site, request⟩ hr
  obtain ⟨hsite, req, rfl⟩ := h _ hr
  rcases hsite with rfl | rfl
  · exact ⟨⟨hasSite_example.1.stores, hasSite_example.1.px⟩, rfl⟩
  · exact ⟨⟨hasSite_example.2.stores, hasSite_example.2.px⟩, rfl⟩

/-- The database of the example does not fail. -/
theorem exampleRowsConnection_up (request : ServerAssignmentRequest) :
    (exampleRowsConnection.toDatabase.sendServerAssignmentRequest request).result ≠ .timeout := by
  by_cases hassigns : request.type.Assigns
  · rw [exampleRowsConnection.sendServerAssignmentRequest_of_assigns hassigns]
    have hrow : exampleRowsConnection.row request.impu
        = (exampleRows request.impu).elim (.error .notFound) .ok := rfl
    rw [hrow]
    cases exampleRows request.impu <;> simp [Except.map, HsProvHssConnection.serverAssignmentAnswer,
      CassandraError.resultCode]
  · unfold HsProvHssConnection.toDatabase
    dsimp only
    split <;> simp_all [ServerAssignmentType.Assigns]

/-- A registration at one site, and a `GET` of an identity that nobody has at the other. -/
theorem only_provisioned_is_shown_example :
    ∃ n₁ n' seen, Eval serveTask (serveSites [⟨exampleNodeConfig,
        .regData (exampleRegDataRequest .put "/impu/sip:a@example.com/reg-data" "reg")⟩])
        exampleProvisionedNode () n₁ ∧
      Eval serveTask (ImpuRegDataTask.run exampleOtherConfig
        (exampleRegDataRequest .get "/impu/sip:b@example.com/reg-data" "")) n₁ () n' ∧
      n'.seen = n₁.seen ++ seen ∧
      ∀ rc content, .reply rc content ∈ seen → content = "" ∧ (rc = 404 ∨ rc = 504) := by
  obtain ⟨n₁, n', seen, -, he₁, he, hseen, -, -, hunserved⟩ :=
    only_provisioned_is_shown (d := exampleProvisioned) describe_exampleRows rfl [⟨exampleNodeConfig,
      .regData (exampleRegDataRequest .put "/impu/sip:a@example.com/reg-data" "reg")⟩]
      exampleOtherConfig (exampleRegDataRequest .get "/impu/sip:b@example.com/reg-data" "")
      (allowed_exampleProvisioned (by simp)) (by simp) provisioned_exampleProvisioned
  exact ⟨n₁, n', seen, he₁, he, hseen, hunserved (by decide) (.inl rfl)⟩

end Homestead

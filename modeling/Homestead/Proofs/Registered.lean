import Homestead.Proofs.Registrar

/-!
# `Homestead.Proofs.Registered`: what a registrar does for its users

The steps of a registrar, by what the request is for. `RegistrarStep.frame` is the frame: a step
changes the registration of its own subscriber only. `RegistrarStep.registered` and
`RegistrarStep.deregistered` say what a registration and a deregistration leave in the table, and
`RegistrarStep.found` and `RegistrarStep.notFound` what a `GET` shows of it.
-/

set_option autoImplicit false

namespace Homestead

theorem IsReply.ne_sar {rc : HttpCode} {x : Observation} (h : IsReply rc x)
    (request : ServerAssignmentRequest) (saa : ServerAssignmentAnswer) : x ≠ .sar request saa := by
  cases h <;> simp

theorem IsReply.ne_found {rc : HttpCode} {x : Observation} (h : IsReply rc x) (r : Registration) :
    x ≠ .found r := by
  cases h <;> simp

/-- The SAR of a step that asks the HSS. -/
theorem eq_of_mem_asked {r? : Option Registration} {request request' : ServerAssignmentRequest}
    {saa saa' : ServerAssignmentAnswer} {rc : HttpCode} {reply : Observation} (hreply : IsReply rc reply)
    (hmem : Observation.sar request' saa' ∈ [lookedUp r?, .sar request saa, reply]) :
    request' = request ∧ saa' = saa := by
  simp only [List.mem_cons, List.not_mem_nil, or_false] at hmem
  rcases hmem with hmem | hmem | hmem
  · cases r? <;> cases hmem
  · cases hmem
    exact ⟨rfl, rfl⟩
  · exact absurd hmem.symm (hreply.ne_sar _ _)

theorem Table.set_self {tbl : Table} {r? : Option Registration} {D : String} :
    tbl.set r? (some D) D = r? := Function.update_self _ _ _

theorem Table.set_ne {tbl : Table} {r? : Option Registration} {D : Option String} {E : String}
    (h : D ≠ some E) : tbl.set r? D E = tbl E := by
  cases D with
  | none => rfl
  | some D => exact Function.update_of_ne (fun heq => h (congrArg some heq.symm)) _ _

/-- An SAR for one subscriber leaves the others. -/
theorem Table.after_ne {tbl : Table} {privateId : String → String} {q : Inquiry} {D : Option String}
    {saa : ServerAssignmentAnswer} {type : ServerAssignmentType} {E : String} (h : D ≠ some E) :
    tbl.after privateId q D saa type E = tbl E := by
  cases type <;> simp only [Table.after] <;> split <;> first | rfl | exact Table.set_ne h

/-- A deregistration that reaches the HSS. -/
theorem Table.after_deregistration {tbl : Table} {privateId : String → String} {q : Inquiry}
    {D : String} {saa : ServerAssignmentAnswer} {type : RequestType}
    (htype : type.isDeregistrationRequest = true) (hreached : saa.result ≠ .serverUnavailable) :
    tbl.after privateId q (some D) saa type.sarType D = none := by
  cases type with
  | deregUser | deregAdmin | deregTimeout =>
    simp only [RequestType.sarType, Table.after, hreached, if_false]
    exact Table.set_self
  | _ => cases htype

namespace RegistrarStep

variable {privateId : String → String} {dir : Directory} {tbl tbl' : Table} {method : HttpMethod}
  {q : Inquiry} {seen : List Observation} {D : String}

/-- A request for one subscriber leaves the others. -/
theorem frame (h : RegistrarStep privateId dir tbl method q seen tbl')
    (hD : dir.defaultOf q.publicId ≠ some D) : tbl' D = tbl D := by
  cases h with
  | asked request saa reply hmethod hsends hreply => exact Table.after_ne hD
  | _ => rfl

/-- A registration that the HSS accepts, or that the table has, is in the table. Its IMPIs are those
that were there, and at most the one of the request. -/
theorem registered (h : RegistrarStep privateId dir tbl .put q seen tbl') (htype : q.type = .reg)
    (hD : dir.defaultOf q.publicId = some D)
    (haccepted : ∀ request saa, .sar request saa ∈ seen → saa.result = .success) :
    ∃ r, tbl' D = some r ∧ r.registered = true ∧
      r.impis ⊆ insert (q.impiFor privateId (tbl D)) ((tbl D).elim ∅ Registration.impis) ∧
      ∀ request saa, .sar request saa ∈ seen →
        r.profile = saa.serviceProfile ∧ r.chargingAddresses = saa.chargingAddresses := by
  have hfind : dir.find tbl q.publicId = tbl D := Directory.find_of_some hD tbl
  cases h with
  | get r reply hmethod => cases hmethod
  | getNone hmethod => cases hmethod
  | fromTable r reply hmethod hr hknown hreply =>
    rw [hfind] at hr
    rcases hknown with ⟨-, hknown⟩ | hcall
    · refine ⟨r, hr, hknown.1, by rw [hr]; exact Set.subset_insert _ _, fun request saa hmem => ?_⟩
      simp only [List.mem_cons, List.not_mem_nil, or_false, reduceCtorEq, false_or] at hmem
      exact absurd hmem.symm (hreply.ne_sar _ _)
    · rw [htype] at hcall
      cases hcall
  | notRegistered hmethod hr hdereg =>
    rw [htype] at hdereg
    cases hdereg
  | asked request saa reply hmethod hsends hreply =>
    have hsuccess := haccepted request saa (by simp)
    rw [hD]
    have htable : ∃ impis, tbl.after privateId q (some D) saa request.type D
        = some (saa.registration true impis) ∧
        impis ⊆ insert (q.impiFor privateId (tbl D)) ((tbl D).elim ∅ Registration.impis) := by
      have hasks := hsends.asks
      generalize dir.find tbl q.publicId = r? at hasks
      generalize request.type = type at hasks ⊢
      cases hasks with
      | reRegistration r =>
        simp only [Table.after, hsuccess, if_true]
        exact ⟨_, Table.set_self, Set.subset_insert _ _⟩
      | registration =>
        simp only [Table.after, hsuccess, if_true]
        exact ⟨_, Table.set_self, subset_rfl⟩
      | unregisteredUser hcall =>
        rw [htype] at hcall
        cases hcall
      | deregistration r hdereg =>
        rw [htype] at hdereg
        cases hdereg
      | authFailure r? hauth =>
        rw [htype] at hauth
        cases hauth
    obtain ⟨impis, htable, himpis⟩ := htable
    refine ⟨_, htable, rfl, himpis, fun request' saa' hmem => ?_⟩
    rw [(eq_of_mem_asked hreply hmem).2]
    exact ⟨rfl, rfl⟩
  | rejected rc hrc =>
    rcases hrc with ⟨hmethod, -⟩ | ⟨-, hunknown, -⟩
    · cases hmethod
    · rw [htype] at hunknown
      cases hunknown

/-- A deregistration that has reached the HSS, or that had nothing to end, is not in the table. -/
theorem deregistered (h : RegistrarStep privateId dir tbl .put q seen tbl')
    (htype : q.type.isDeregistrationRequest = true) (hD : dir.defaultOf q.publicId = some D)
    (hreached : ∀ request saa, .sar request saa ∈ seen → saa.result ≠ .serverUnavailable) :
    tbl' D = none := by
  have hfind : dir.find tbl q.publicId = tbl D := Directory.find_of_some hD tbl
  cases h with
  | get r reply hmethod => cases hmethod
  | getNone hmethod => cases hmethod
  | fromTable r reply hmethod hr hknown hreply =>
    rcases hknown with ⟨hreg, -⟩ | hcall
    · rw [hreg] at htype
      cases htype
    · rw [hcall] at htype
      cases htype
  | notRegistered hmethod hr hdereg => exact hfind.symm.trans hr
  | asked request saa reply hmethod hsends hreply =>
    have hne := hreached request saa (by simp)
    rw [hD]
    have hasks := hsends.asks
    generalize dir.find tbl q.publicId = r? at hasks
    generalize request.type = type at hasks ⊢
    cases hasks with
    | reRegistration r hreg | registration r? hreg =>
      rw [hreg] at htype
      cases htype
    | unregisteredUser hcall =>
      rw [hcall] at htype
      cases htype
    | deregistration r hdereg => exact Table.after_deregistration hdereg hne
    | authFailure r? hauth =>
      cases hq : q.type with
      | deregUser | deregAdmin | deregTimeout =>
        rw [hq] at hauth
        cases hauth
      | _ =>
        rw [hq] at htype
        cases htype
  | rejected rc hrc =>
    rcases hrc with ⟨hmethod, -⟩ | ⟨-, hunknown, -⟩
    · cases hmethod
    · rw [hunknown] at htype
      cases htype

/-- What a `GET` shows of a registration. -/
theorem found (h : RegistrarStep privateId dir tbl .get q seen tbl')
    (hD : dir.defaultOf q.publicId = some D) {r : Registration} (hr : tbl D = some r) :
    ∃ reply, seen = [.found r, reply] ∧ IsReply httpOk reply := by
  have hfind : dir.find tbl q.publicId = some r := (Directory.find_of_some hD tbl).trans hr
  cases h with
  | get r' reply hmethod hr' hreply =>
    rw [hfind] at hr'
    cases hr'
    exact ⟨reply, rfl, hreply⟩
  | getNone hmethod hr' =>
    rw [hfind] at hr'
    cases hr'
  | fromTable r' reply hmethod => cases hmethod
  | notRegistered hmethod => cases hmethod
  | asked request saa reply hmethod => cases hmethod
  | rejected rc hrc => rcases hrc with ⟨hmethod, -⟩ | ⟨hmethod, -⟩ <;> cases hmethod

/-- What a `GET` shows without one. -/
theorem notFound (h : RegistrarStep privateId dir tbl .get q seen tbl')
    (hD : dir.defaultOf q.publicId = some D) (hr : tbl D = none) :
    seen = [.notFound .notFound, .reply httpNotFound ""] := by
  have hfind : dir.find tbl q.publicId = none := (Directory.find_of_some hD tbl).trans hr
  cases h with
  | get r' reply hmethod hr' hreply =>
    rw [hfind] at hr'
    cases hr'
  | getNone hmethod hr' => rfl
  | fromTable r' reply hmethod => cases hmethod
  | notRegistered hmethod => cases hmethod
  | asked request saa reply hmethod => cases hmethod
  | rejected rc hrc => rcases hrc with ⟨hmethod, -⟩ | ⟨hmethod, -⟩ <;> cases hmethod

end RegistrarStep

end Homestead

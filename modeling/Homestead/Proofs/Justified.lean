import Homestead.Proofs.NodeRequests

/-!
# `Homestead.Proofs.Justified`: nothing is shown that the HSS has not said

A deployment starts without registrations, and its nodes serve requests of all three interfaces.
Whatever they show then comes from what they were told before: `Justified dir seen D r` says how the
registration `r` of the subscriber `D` follows from the observations `seen`. `justified_step` is one
request, and `shown_is_justified` every run.
-/

set_option autoImplicit false

namespace Homestead

/-- The HSS has accepted the SAR, which was for the subscriber `D`. -/
structure Accepted (dir : Directory) (seen : List Observation) (D : String)
    (request : ServerAssignmentRequest) (saa : ServerAssignmentAnswer) : Prop where
  sent : .sar request saa ∈ seen
  success : saa.result = .success
  subscriber : dir.defaultOf request.publicId = some D

/-- What has been seen accounts for the registration `r` of the subscriber `D`. The profile is of an
SAA, or was pushed and Sprout took it. If the subscriber is registered the HSS has accepted
a registration, and each IMPI was in one. -/
structure Justified (dir : Directory) (seen : List Observation) (D : String) (r : Registration) :
    Prop where
  profile : (∃ request saa, Accepted dir seen D request saa ∧ r.profile = saa.serviceProfile) ∨
    .changeAssociatedIdentities D r.profile httpOk ∈ seen
  registered : r.registered = true →
    ∃ request saa, Accepted dir seen D request saa ∧ request.type = .registration
  impis : ∀ impi ∈ r.impis, ∃ request saa, Accepted dir seen D request saa ∧
    request.type = .registration ∧ request.impi = impi

section Steps

variable {cfg : RegDataConfig} {dir : Directory} {seen seen' : List Observation} {tbl tbl' : Table}

theorem Accepted.append {D : String} {request : ServerAssignmentRequest} {saa : ServerAssignmentAnswer}
    (h : Accepted dir seen D request saa) (seen' : List Observation) :
    Accepted dir (seen ++ seen') D request saa :=
  ⟨List.mem_append_left _ h.sent, h.success, h.subscriber⟩

theorem Justified.append {D : String} {r : Registration} (h : Justified dir seen D r)
    (seen' : List Observation) : Justified dir (seen ++ seen') D r where
  profile := h.profile.imp (fun ⟨request, saa, hsar, hprofile⟩ => ⟨request, saa, hsar.append _, hprofile⟩)
    (List.mem_append_left _)
  registered hr := by
    obtain ⟨request, saa, hsar, htype⟩ := h.registered hr
    exact ⟨request, saa, hsar.append _, htype⟩
  impis impi himpi := by
    obtain ⟨request, saa, hsar, htype⟩ := h.impis impi himpi
    exact ⟨request, saa, hsar.append _, htype⟩

/-- What has been seen accounts for all registrations. -/
def Table.Justified (dir : Directory) (seen : List Observation) (tbl : Table) : Prop :=
  ∀ D r, tbl D = some r → Homestead.Justified dir seen D r

/-- A new entry for a subscriber. -/
theorem Table.Justified.set (h : tbl.Justified dir seen) {r? : Option Registration} {D? : Option String}
    (hr : ∀ D r, D? = some D → r? = some r → Homestead.Justified dir seen D r) :
    (tbl.set r? D?).Justified dir seen := by
  cases D? with
  | none => exact h
  | some D =>
    intro E r hE
    by_cases hD : E = D
    · subst hD
      rw [Table.set_self] at hE
      exact hr E r rfl hE
    · rw [Table.set_ne (by simpa using Ne.symm hD)] at hE
      exact h E r hE

/-- Only a registered subscriber registers again. -/
theorem Inquiry.Asks.isKnown {q : Inquiry} {r? : Option Registration} {type : ServerAssignmentType}
    (h : q.Asks r? type) (htype : type = .reRegistration) : ∃ r, r? = some r ∧ q.IsKnown r := by
  cases h with
  | reRegistration r _ hknown => exact ⟨r, rfl, hknown⟩
  | registration | unregisteredUser => cases htype
  | deregistration r hdereg => cases h : q.type <;> rw [h] at hdereg htype <;> cases hdereg <;> cases htype
  | authFailure r? hauth => cases h : q.type <;> rw [h] at hauth htype <;> cases hauth <;> cases htype

/-- An SAR for a subscriber of the table. -/
theorem justified_after (htbl : tbl.Justified dir seen) {privateId : String → String} {q : Inquiry}
    {request : ServerAssignmentRequest} {saa : ServerAssignmentAnswer}
    (hsends : q.Sends privateId (dir.find tbl q.publicId) request)
    (hsent : .sar request saa ∈ seen) :
    (tbl.after privateId q (dir.defaultOf q.publicId) saa request.type).Justified dir seen := by
  have hpublicId : request.publicId = q.publicId := by
    rw [ServerAssignmentRequest.publicId, hsends.impu, hsends.wildcardImpu]
    rfl
  have haccepted : ∀ D, saa.result = .success → dir.defaultOf q.publicId = some D →
      Accepted dir seen D request saa := fun D hsuccess hD =>
    ⟨hsent, hsuccess, by rw [hpublicId, hD]⟩
  -- The IMPIs that are there already.
  have hold : ∀ D impi, dir.defaultOf q.publicId = some D →
      impi ∈ ((dir.defaultOf q.publicId).bind tbl).elim ∅ Registration.impis →
      ∃ request saa, Accepted dir seen D request saa ∧ request.type = .registration ∧
        request.impi = impi := by
    intro D impi hD himpi
    rw [hD, Option.bind_some] at himpi
    cases hr : tbl D with
    | none =>
      rw [hr] at himpi
      cases himpi
    | some r =>
      rw [hr] at himpi
      exact (htbl D r hr).impis impi himpi
  have himpi := hsends.impi
  cases htype : request.type with
  | registration =>
    simp only [Table.after]
    split
    · rename_i hsuccess
      refine htbl.set fun D r hD hr => ?_
      cases hr
      have hsar := haccepted D hsuccess hD
      refine ⟨.inl ⟨request, saa, hsar, rfl⟩, fun _ => ⟨request, saa, hsar, htype⟩, fun impi hmem => ?_⟩
      rcases hmem with rfl | hmem
      · exact ⟨request, saa, hsar, htype, himpi⟩
      · exact hold D impi hD hmem
    · exact htbl
  | reRegistration =>
    simp only [Table.after]
    split
    · rename_i hsuccess
      refine htbl.set fun D r hD hr => ?_
      cases hr
      refine ⟨.inl ⟨request, saa, haccepted D hsuccess hD, rfl⟩, fun _ => ?_, fun impi => hold D impi hD⟩
      obtain ⟨r, hr, hknown⟩ := hsends.asks.isKnown htype
      rw [Directory.find_of_some hD] at hr
      exact (htbl D r hr).registered hknown.1
    · exact htbl
  | unregisteredUser =>
    simp only [Table.after]
    split
    · rename_i hsuccess
      refine htbl.set fun D r hD hr => ?_
      cases hr
      refine ⟨.inl ⟨request, saa, haccepted D hsuccess hD, rfl⟩, fun h => ?_, fun impi h => ?_⟩
      · cases h
      · cases h
    · exact htbl
  | userDeregistration | administrativeDeregistration | timeoutDeregistration =>
    simp only [Table.after]
    split
    · exact htbl
    · refine htbl.set fun D r _ hr => ?_
      cases hr
  | authenticationFailure | authenticationTimeout => exact htbl

/-- A request for registrations that are accounted for: those after it are as well. -/
theorem justified_step (htbl : tbl.Justified dir seen) {request : NodeRequest}
    (hstep : NodeStep cfg dir tbl request seen' tbl') : tbl'.Justified dir (seen ++ seen') := by
  have hkept : tbl.Justified dir (seen ++ seen') := fun D r hr => (htbl D r hr).append seen'
  have hregData : ∀ {method q}, RegistrarStep cfg.getPrivateId dir tbl method q seen' tbl' →
      tbl'.Justified dir (seen ++ seen') := by
    intro method q hstep
    cases hstep with
    | asked request saa reply hmethod hsends hreply =>
      exact justified_after hkept hsends (List.mem_append_right _ (by simp))
    | _ => exact hkept
  cases hstep with
  | regData req hstep => exact hregData hstep
  | readRegData req hmethod hstep => exact hregData hstep
  | badMethod req hmethod => exact hkept
  | termination rtr hstep =>
    cases hstep with
    | terminated Ds sprout hreason hne hconcerns =>
      intro D r hr
      unfold Table.without at hr
      split at hr
      · cases hr
      · exact hkept D r hr
    | _ => exact hkept
  | push ppr hstep =>
    have hpushed : ∀ {E r}, tbl E = some r →
        (ppr.userData = none ∨ .changeAssociatedIdentities E (r.pushed ppr).profile httpOk ∈ seen') →
        Table.Justified dir (seen ++ seen') (Function.update tbl E (some (r.pushed ppr))) := by
      intro E r hr hxml D r' hr'
      by_cases hD : D = E
      · subst hD
        rw [Function.update_self] at hr'
        cases hr'
        obtain ⟨hprofile, hregistered, himpis⟩ := hkept D r hr
        refine ⟨?_, hregistered, himpis⟩
        rcases hxml with hnone | hmem
        · rw [Registration.pushed, hnone]
          exact hprofile
        · exact .inr (List.mem_append_right _ hmem)
      · rw [Function.update_of_ne hD] at hr'
        exact hkept D r' hr'
    cases hstep with
    | addresses E r hr hlists hxml => exact hpushed hr (.inl hxml)
    | profile E xml r hr hlists hxml hdefault =>
      refine hpushed hr (.inr ?_)
      rw [Registration.pushed, hxml]
      exact List.mem_cons_self
    | _ => exact hkept

/-- What a step shows first may be an entry of the table. It shows no other. -/
theorem RegistrarStep.seen_eq {privateId : String → String} {method : HttpMethod} {q : Inquiry}
    (h : RegistrarStep privateId dir tbl method q seen tbl') :
    ∃ x rest, seen = x :: rest ∧ (∀ r, .found r ∉ rest) ∧ ∀ r, x = .found r → ∃ D, tbl D = some r := by
  have hfound : ∀ r r', dir.find tbl q.publicId = some r → Observation.found r = .found r' →
      ∃ D, tbl D = some r' := by
    rintro r _ hfind ⟨⟩
    obtain ⟨D, -, hD⟩ := Option.bind_eq_some_iff.mp hfind
    exact ⟨D, hD⟩
  cases h with
  | get r reply hmethod hfind hreply =>
    exact ⟨_, _, rfl, by simpa using fun r => (hreply.ne_found r).symm, fun r' => hfound r r' hfind⟩
  | fromTable r reply hmethod hfind hknown hreply =>
    exact ⟨_, _, rfl, by simpa using fun r => (hreply.ne_found r).symm, fun r' => hfound r r' hfind⟩
  | asked request saa reply hmethod hsends hreply =>
    refine ⟨_, _, rfl, by simpa using fun r => (hreply.ne_found r).symm, fun r' hr' => ?_⟩
    generalize hfind : dir.find tbl q.publicId = r? at hr'
    cases r? with
    | none => cases hr'
    | some r => exact hfound r r' hfind hr'
  | getNone | notRegistered | rejected => exact ⟨_, _, rfl, by simp, nofun⟩

theorem NodeStep.seen_eq {request : NodeRequest} (h : NodeStep cfg dir tbl request seen tbl') :
    ∃ x rest, seen = x :: rest ∧ (∀ r, .found r ∉ rest) ∧ ∀ r, x = .found r → ∃ D, tbl D = some r := by
  cases h with
  | regData req hstep => exact hstep.seen_eq
  | readRegData req hmethod hstep => exact hstep.seen_eq
  | badMethod req hmethod => exact ⟨_, _, rfl, by simp, nofun⟩
  | termination rtr hstep =>
    cases hstep with
    | terminated Ds sprout hreason hne hconcerns =>
      refine ⟨_, _, rfl, by simp, fun r hr => ?_⟩
      unfold Rtr.notice at hr
      split at hr <;> cases hr
    | _ => exact ⟨_, _, rfl, by simp, nofun⟩
  | push ppr hstep => cases hstep <;> exact ⟨_, _, rfl, by simp, nofun⟩

/-- Every registration that was shown is accounted for by what was seen before. -/
def ShownJustified (dir : Directory) (seen : List Observation) : Prop :=
  ∀ before r after, seen = before ++ .found r :: after → ∃ D, Justified dir before D r

theorem shownJustified_step (htbl : tbl.Justified dir seen) (hshown : ShownJustified dir seen)
    {request : NodeRequest} (hstep : NodeStep cfg dir tbl request seen' tbl') :
    ShownJustified dir (seen ++ seen') := by
  obtain ⟨x, rest, rfl, hrest, hx⟩ := hstep.seen_eq
  intro before r after heq
  rcases List.append_eq_append_iff.mp heq with ⟨later, rfl, htail⟩ | ⟨earlier, rfl, htail⟩
  · cases later with
    | nil =>
      obtain ⟨rfl, -⟩ := List.cons.inj htail
      obtain ⟨D, hD⟩ := hx r rfl
      rw [List.append_nil]
      exact ⟨D, htbl D r hD⟩
    | cons y later =>
      obtain ⟨-, rfl⟩ := List.cons.inj htail
      exact absurd (List.mem_append_right _ List.mem_cons_self) (hrest r)
  · cases earlier with
    | nil =>
      obtain ⟨rfl, -⟩ := List.cons.inj htail
      obtain ⟨D, hD⟩ := hx r rfl
      rw [List.append_nil] at htbl
      exact ⟨D, htbl D r hD⟩
    | cons y earlier =>
      obtain ⟨rfl, -⟩ := List.cons.inj htail
      exact hshown before r earlier rfl

end Steps

end Homestead

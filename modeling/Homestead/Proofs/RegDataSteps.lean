import Homestead.Model.ImpuRegDataTask

/-!
# `Homestead.Proofs.RegDataSteps`: what `process_received_reg_data` goes on to

`process_received_reg_data` replies, rejects the request, or sends an SAR, depending on the type
of the request and on the cached state. `processed` lists the cases once, with what each of them
says of the request, of the task and of the IRS that goes with the SAR.
-/

set_option autoImplicit false

namespace Homestead.ImpuRegDataTask

/-- `t'` is `t` with other cached data: the same request with the same wildcards. -/
structure Continues (t t' : ImpuRegDataTask) : Prop where
  req : t'.req = t.req
  type : t'.type = t.type
  sproutWildcard : t'.sproutWildcard = t.sproutWildcard
  hssWildcard : t'.hssWildcard = t.hssWildcard

/-- What `process_received_reg_data` goes on to.

* It replies to a `GET`, and to a registration or a call that it answers from the cache.
* It rejects the deregistration of a subscriber who is not registered.
* It sends an SAR for a `PUT`. The IRS of a deregistration has its state set and is that of a
  registered subscriber.
* The last branch of the source is left for a `PUT` of unknown type. -/
inductive Processed (cfg : RegDataConfig) (t : ImpuRegDataTask) (irs : Irs) :
    TaskProg (Option ImpuRegDataTask) → Prop
  | reply {t' : ImpuRegDataTask} (hsame : t.Continues t')
      (hcached : t.req.method = .get ∨ t.type = .reg ∨ t.type = .call) :
      Processed cfg t irs t'.replyAndFinish
  | reject (hdereg : t.type.isDeregistrationRequest = true)
      (hstate : irs.registrationState = .notRegistered) :
      Processed cfg t irs (rejectWith httpBadRequest)
  | sar {t' : ImpuRegDataTask} {irs' : Irs} {type : ServerAssignmentType} (hsame : t.Continues t')
      (hmethod : t.req.method ≠ .get) (htype : t.type ≠ .unknown)
      (hdereg : t.type.isDeregistrationRequest = true →
        irs' = irs.setRegState .notRegistered ∧ irs.registrationState ≠ .notRegistered) :
      Processed cfg t irs (t'.sendSar cfg irs' type)
  | unreachable (hmethod : t.req.method ≠ .get) (htype : t.type = .unknown) :
      Processed cfg t irs finish

section Branches

variable {cfg : RegDataConfig} {t t' : ImpuRegDataTask} {irs : Irs}

/-- A registration goes to the HSS unless the record is recent and the cache is allowed. -/
theorem processed_reg (hsame : t.Continues t') (hmethod : t.req.method ≠ .get) (htype : t.type = .reg)
    (newBinding : Bool) : Processed cfg t irs (t'.processReg cfg irs newBinding) := by
  have hsar : ∀ irs' type, Processed cfg t irs (t'.sendSar cfg irs' type) := fun irs' type =>
    .sar hsame hmethod (by simp [htype]) (by simp [htype, RequestType.isDeregistrationRequest])
  unfold processReg
  dsimp only
  split
  · split
    · exact hsar _ _
    · split
      · exact hsar _ _
      · exact .reply hsame (.inr (.inl htype))
  · exact hsar _ _

theorem processed_call (hsame : t.Continues t') (hmethod : t.req.method ≠ .get)
    (htype : t.type = .call) : Processed cfg t irs (t'.processCall cfg irs) := by
  unfold processCall
  split
  · exact .sar hsame hmethod (by simp [htype]) (by simp [htype, RequestType.isDeregistrationRequest])
  · exact .reply hsame (.inr (.inr htype))

theorem processed_dereg (hsame : t.Continues t') (hcached : t'.cachedRegState = irs.registrationState)
    (hmethod : t.req.method ≠ .get) (hdereg : t.type.isDeregistrationRequest = true) :
    Processed cfg t irs (t'.processDereg cfg irs) := by
  have htype : t.type ≠ .unknown := by
    intro htype
    rw [htype] at hdereg
    cases hdereg
  unfold processDereg
  rw [hcached]
  split
  · rename_i hstate
    exact .sar hsame hmethod htype fun _ => ⟨rfl, hstate⟩
  · rename_i hstate
    exact .reject hdereg (not_not.mp hstate)

end Branches

theorem processed (cfg : RegDataConfig) (t : ImpuRegDataTask) (irs : Irs) :
    Processed cfg t irs (t.processReceivedRegData cfg irs) := by
  have hsame : ∀ impi, t.Continues { t with cachedRegState := irs.registrationState, impi := impi } :=
    fun _ => ⟨rfl, rfl, rfl, rfl⟩
  show Processed cfg t irs (if t.req.method = .get then _ else
    if t.type = .reg then _ else if t.type = .call then _ else
    if t.type.isDeregistrationRequest = true then _ else
    if t.type.isAuthFailureRequest = true then _ else _)
  -- The branches in the order of the source, each with what the ones before it rule out.
  by_cases hmethod : t.req.method = .get
  · rw [if_pos hmethod]
    exact .reply (hsame _) (.inl hmethod)
  rw [if_neg hmethod]
  by_cases hreg : t.type = .reg
  · rw [if_pos hreg]
    exact processed_reg (hsame _) hmethod hreg _
  rw [if_neg hreg]
  by_cases hcall : t.type = .call
  · rw [if_pos hcall]
    exact processed_call (hsame _) hmethod hcall
  rw [if_neg hcall]
  by_cases hdereg : t.type.isDeregistrationRequest = true
  · rw [if_pos hdereg]
    exact processed_dereg (hsame _) rfl hmethod hdereg
  rw [if_neg hdereg]
  by_cases hauth : t.type.isAuthFailureRequest = true
  · rw [if_pos hauth]
    refine .sar (hsame _) hmethod (fun htype => ?_) fun h => absurd h hdereg
    rw [htype] at hauth
    cases hauth
  · rw [if_neg hauth]
    refine .unreachable hmethod ?_
    cases htype : t.type with
    | unknown => rfl
    | reg => exact absurd htype hreg
    | call => exact absurd htype hcall
    | deregUser | deregAdmin | deregTimeout =>
      rw [htype] at hdereg
      exact absurd rfl hdereg
    | deregAuthFail | deregAuthTimeout =>
      rw [htype] at hauth
      exact absurd rfl hauth

end Homestead.ImpuRegDataTask

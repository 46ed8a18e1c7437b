import Homestead.Proofs.FailedPut
import Homestead.Proofs.Data

/-!
# `Homestead.Proofs.DeleteReported`: when a failed delete is reported

One status variable goes through the loops of a delete, and every delete or set that is issued
overwrites it. `statusAfter` is what it holds after a part of a run. `Part.delete_ok_iff` follows
from it: `delete_irs_action` is not `OK` exactly when the last delete or set that it issued
failed. `delete_irss_action` returns the status of the last existing IRS.

`deletes_reported_iff` says from there when a multiple delete reports its failures.
-/

set_option autoImplicit false

namespace Homestead

/-! ### The status variable -/

/-- The answer to a delete or to the set of a mapping. -/
def deleteAnswer? : Event Call Call.Resp → Option Status
  | ⟨.deleteImpu _ _, r⟩ => some r
  | ⟨.setImpiMapping _ _, r⟩ => some r
  | ⟨.deleteImpiMapping _ _, r⟩ => some r
  | _ => none

/-- The status variable after the calls of `hs`, when each answer overwrites it. -/
def statusAfter (status : Status) (hs : History) : Status :=
  (hs.filterMap deleteAnswer?).getLast?.getD status

theorem statusAfter_append (status : Status) (h₁ h₂ : History) :
    statusAfter status (h₁ ++ h₂) = statusAfter (statusAfter status h₁) h₂ := by
  unfold statusAfter
  rw [List.filterMap_append, List.getLast?_append]
  cases (h₂.filterMap deleteAnswer?).getLast? <;> simp

/-- A part of a run overwrites the status or leaves it. -/
theorem statusAfter_cases (hs : History) :
    (∃ r, ∀ status, statusAfter status hs = r) ∨ ∀ status, statusAfter status hs = status := by
  unfold statusAfter
  cases (hs.filterMap deleteAnswer?).getLast? with
  | none => exact .inr fun _ => rfl
  | some r => exact .inl ⟨r, fun _ => rfl⟩

/-- An answer that is neither `OK` nor a conflict, after which the call is made again. -/
def Status.fails (r : Status) : Bool := !(r.isOk || r.isContention)

theorem Status.fails_iff {r : Status} : r.fails = true ↔ r ≠ .ok ∧ r ≠ .dataContention := by
  cases r <;> decide

section Loops

variable {s : StoreId} {irs : Irs}

theorem ran_removeMappingPass {impi : String} {status status' : Status} {hs : History}
    (h : Ran (removeMappingPass irs s impi status) hs status') : status' = statusAfter status hs := by
  obtain ⟨found, hs₁, rfl, hrest⟩ := Ran.call_bind_iff.mp h
  obtain ⟨_ | _ | _ | _, _ | mapping⟩ := found
  case ok.some =>
    have hfound : Ran (if mapping.hasDefaultImpu irs.defaultImpu then _ else _) hs₁ status' := hrest
    split at hfound
    · have hwrite : Ran (if (mapping.removeDefaultImpu irs.defaultImpu).isEmpty then _ else _) hs₁
        status' := hfound
      split at hwrite
      · obtain ⟨r, hs₂, rfl, hret⟩ := Ran.call_iff.mp hwrite
        obtain ⟨rfl, rfl⟩ := Ran.ret_iff.mp hret
        rfl
      · obtain ⟨r, hs₂, rfl, hret⟩ := Ran.call_iff.mp hwrite
        obtain ⟨rfl, rfl⟩ := Ran.ret_iff.mp hret
        rfl
    · obtain ⟨rfl, rfl⟩ := Ran.ret_iff.mp hfound
      rfl
  all_goals
    obtain ⟨rfl, rfl⟩ := Ran.ret_iff.mp hrest
    rfl

theorem ran_removeAssociatedImpuPass {impu : String} {status status' : Status} {hs : History}
    (h : Ran (removeAssociatedImpuPass irs s impu status) hs status') :
    status' = statusAfter status hs := by
  obtain ⟨⟨status₁, found⟩, hs₁, rfl, hrest⟩ := Ran.call_bind_iff.mp h
  obtain _ | d | a := found
  · obtain ⟨rfl, rfl⟩ := Ran.ret_iff.mp hrest
    rfl
  · obtain ⟨rfl, rfl⟩ := Ran.ret_iff.mp hrest
    rfl
  · have hfound : Ran (if a.defaultImpu = irs.defaultImpu then _ else _) hs₁ status' := hrest
    split at hfound
    · obtain ⟨r, hs₂, rfl, hret⟩ := Ran.call_iff.mp hfound
      obtain ⟨rfl, rfl⟩ := Ran.ret_iff.mp hret
      rfl
    · obtain ⟨rfl, rfl⟩ := Ran.ret_iff.mp hfound
      rfl

/-- A retry loop over one status variable: it ends with what the answers leave, and not with a
conflict. -/
theorem ran_retryLoop {pass : Status → CacheProg Status}
    (hpass : ∀ {status status' hs}, Ran (pass status) hs status' → status' = statusAfter status hs)
    {status status' : Status} {hs : History}
    (h : Ran (Prog.loop pass Status.isContention status) hs status') :
    status' = statusAfter status hs ∧ status' ≠ .dataContention := by
  refine Ran.loop_induct (P := fun status hs status' =>
    status' = statusAfter status hs ∧ status' ≠ .dataContention) ?_ ?_ h
  · intro status hs status' hlast hne
    exact ⟨hpass hlast, of_decide_eq_false hne⟩
  · intro status h₁ status₁ h₂ status' hfirst _ ih
    rw [statusAfter_append, ← hpass hfirst]
    exact ih

/-- The loop over the deleted elements, started with a status that is not a conflict. -/
theorem ran_deletedLoop {body : String → Status → CacheProg Status}
    (hbody : ∀ {x status status' hs}, Ran (body x status) hs status' →
      status' = statusAfter status hs ∧ status' ≠ .dataContention)
    {xs : List String} {status status' : Status} {hs : History} (hstatus : status ≠ .dataContention)
    (h : Ran (Prog.forEach xs body status) hs status') :
    status' = statusAfter status hs ∧ status' ≠ .dataContention := by
  induction xs generalizing status hs with
  | nil =>
    obtain ⟨rfl, rfl⟩ := Ran.ret_iff.mp h
    exact ⟨rfl, hstatus⟩
  | cons x xs ih =>
    obtain ⟨status₁, h₁, h₂, rfl, hfirst, hrest⟩ := Ran.forEach_cons_iff.mp h
    obtain ⟨heq, hne⟩ := hbody hfirst
    obtain ⟨hlast, hlast'⟩ := ih hne hrest
    rw [statusAfter_append, ← heq]
    exact ⟨hlast, hlast'⟩

end Loops

/-! ### The delete of one IRS -/

section DeleteIrs

variable {s : StoreId}

/-- How the loop over the default IMPU leaves the status: with the last answer, or with `OK`
because the record is gone, after a conflict if a delete was made at all. -/
def DeleteEnds (hs : History) (status : Status) : Prop :=
  (∀ status₀, statusAfter status₀ hs = status) ∨
    status = .ok ∧ ∀ status₀,
      statusAfter status₀ hs = status₀ ∨ statusAfter status₀ hs = .dataContention

/-- The delete that ends a pass, after its reading of the clock. -/
theorem deleteEnds_delete (pre : History) {irs : Irs} {cas : Nat} {store : Option StoreId}
    {hs : History} {st : ImpuActionState} (h : Ran (Irs.getImpuFromImpu irs cas store >>= fun impu =>
      IrsImpuAction.deleteImpu.apply s impu >>= fun status =>
        pure { status := status, irs := irs, impu := none : ImpuActionState }) hs st) :
    DeleteEnds (pre ++ hs) st.status ∧ st.irs = irs ∧ st.impu = none := by
  obtain ⟨now, hs₁, rfl, hran⟩ := Ran.call_iff.mp h
  obtain ⟨status, hs₂, rfl, hret⟩ := Ran.call_iff.mp hran
  obtain ⟨rfl, rfl⟩ := Ran.ret_iff.mp hret
  refine ⟨.inl fun status₀ => ?_, rfl, rfl⟩
  rw [statusAfter_append]
  rfl

theorem ran_deletePass {st st' : ImpuActionState} {hs : History} (hrefreshed : st.irs.refreshed = true)
    (h : Ran (impuActionPass .deleteImpu s st) hs st') :
    DeleteEnds hs st'.status ∧ st'.irs.refreshed = true := by
  unfold impuActionPass at h
  cases himpu : st.impu with
  | some d =>
    rw [himpu] at h
    obtain ⟨status, hs₁, rfl, hran⟩ := Ran.call_iff.mp h
    obtain ⟨rfl, rfl⟩ := Ran.ret_iff.mp hran
    exact ⟨.inl fun _ => rfl, hrefreshed⟩
  | none =>
    rw [himpu] at h
    obtain ⟨⟨status, found⟩, hs₁, rfl, hran⟩ := Ran.call_iff.mp h
    obtain _ | d | a := found
    · -- The record is gone, so the pass is `OK` without a delete.
      obtain ⟨rfl, rfl⟩ := Ran.ret_iff.mp hran
      exact ⟨.inr ⟨rfl, fun _ => .inl rfl⟩, hrefreshed⟩
    · -- The IRS was marked as refreshed, so the merge reads no time and the alias is no error.
      have hdefault : Ran (st.irs.mergeFromStore d >>= _) hs₁ st' := hran
      unfold Irs.mergeFromStore at hdefault
      rw [if_pos hrefreshed] at hdefault
      obtain ⟨hends, hirs, -⟩ := deleteEnds_delete [_] hdefault
      rw [hirs]
      exact ⟨hends, hrefreshed⟩
    · have hassoc : Ran (if st.irs.refreshed then _ else _) hs₁ st' := hran
      rw [if_pos hrefreshed] at hassoc
      obtain ⟨hends, hirs, -⟩ := deleteEnds_delete [_] hassoc
      rw [hirs]
      exact ⟨hends, hrefreshed⟩

/-- The passes before the last one ended with a conflict. -/
theorem DeleteEnds.after_conflict {h₁ h₂ : History} {status : Status}
    (hfirst : DeleteEnds h₁ .dataContention) (hrest : DeleteEnds h₂ status) :
    DeleteEnds (h₁ ++ h₂) status := by
  have hconflict : ∀ status₀, statusAfter status₀ h₁ = .dataContention := by
    rcases hfirst with hlast | ⟨hok, -⟩
    · exact hlast
    · cases hok
  rcases hrest with hlast | ⟨hok, hgone⟩
  · refine .inl fun status₀ => ?_
    rw [statusAfter_append, hlast]
  · refine .inr ⟨hok, fun status₀ => .inr ?_⟩
    rw [statusAfter_append, hconflict]
    rcases hgone .dataContention with h | h <;> exact h

theorem ran_deleteLoop {st st' : ImpuActionState} {hs : History} (hrefreshed : st.irs.refreshed = true)
    (h : Ran (Prog.loop (impuActionPass .deleteImpu s) (fun st => st.status.isContention) st) hs st') :
    DeleteEnds hs st'.status ∧ st'.status ≠ .dataContention := by
  refine Ran.loop_induct (P := fun st hs st' => st.irs.refreshed = true →
    DeleteEnds hs st'.status ∧ st'.status ≠ .dataContention) ?_ ?_ h hrefreshed
  · intro st hs st' hpass hlast hrefreshed
    exact ⟨(ran_deletePass hrefreshed hpass).1, of_decide_eq_false hlast⟩
  · intro st h₁ st₁ h₂ st' hpass hagain ih hrefreshed
    obtain ⟨hends, hkept⟩ := ran_deletePass hrefreshed hpass
    obtain ⟨hrest, hne⟩ := ih hkept
    rw [of_decide_eq_true hagain] at hends
    exact ⟨hends.after_conflict hrest, hne⟩

/-- `delete_irs_impu`. -/
theorem ran_deleteIrsImpu {irs irs' : Irs} {hs : History} {status : Status}
    (h : Ran (deleteIrsImpu irs s) hs (status, irs')) :
    DeleteEnds hs status ∧ status ≠ .dataContention := by
  obtain ⟨impu, h₁, h₂, rfl, himpu, hrest⟩ := Ran.bind_inv h
  obtain ⟨st, h₃, h₄, rfl, hloop, hret⟩ := Ran.bind_inv hrest
  obtain ⟨rfl, hst⟩ := Ran.ret_iff.mp hret
  obtain ⟨rfl, rfl⟩ := Prod.mk.inj hst
  obtain ⟨hends, hne⟩ := ran_deleteLoop (by rfl) hloop
  rw [List.append_nil]
  unfold Irs.getImpuForStore at himpu
  split at himpu
  · obtain ⟨now, h₅, rfl, hrecord⟩ := Ran.call_iff.mp himpu
    obtain ⟨rfl, -⟩ := Ran.ret_iff.mp hrecord
    exact ⟨hends, hne⟩
  · obtain ⟨rfl, -⟩ := Ran.ret_iff.mp himpu
    exact ⟨hends, hne⟩

/-- The three loops of an update, with nothing in the second and the third. -/
theorem ran_deletedOnly {X : Type} {xs : List X} {remove refresh add : X → Status → CacheProg Status}
    {refreshed : Bool} {hs : History} {status : Status}
    (h : Ran (Prog.forEach xs remove .ok >>= fun status =>
      (if refreshed then Prog.forEach [] refresh status else pure status) >>=
        Prog.forEach [] add) hs status) : Ran (Prog.forEach xs remove .ok) hs status := by
  obtain ⟨status₁, h₁, h₂, rfl, hdeleted, hrest⟩ := Ran.bind_inv h
  obtain ⟨status₂, h₃, h₄, rfl, hrefresh, hadd⟩ := Ran.bind_inv hrest
  obtain ⟨rfl, rfl⟩ := Ran.ret_iff.mp hadd
  have hnothing : Ran (pure status₁ : CacheProg Status) h₃ status := by
    cases refreshed <;> exact hrefresh
  obtain ⟨rfl, rfl⟩ := Ran.ret_iff.mp hnothing
  rw [List.append_nil, List.append_nil]
  exact hdeleted

theorem ran_updateIrsAssociatedImpus_deleted {irs : Irs} {hs : History} {status : Status}
    (h : Ran (updateIrsAssociatedImpus irs.deleteAssocImpus s) hs status) :
    status = statusAfter .ok hs ∧ status ≠ .dataContention := by
  have hnone : ∀ st : State, st ≠ .deleted → irs.deleteAssocImpus.impusIn st = [] :=
    fun st hst => Data.elementsInState_deleteTracked hst
  rw [updateIrsAssociatedImpus_eq, hnone .unchanged (by decide), hnone .added (by decide)] at h
  exact ran_deletedLoop (fun hbody => ran_retryLoop ran_removeAssociatedImpuPass hbody)
    (by decide) (ran_deletedOnly h)

theorem ran_updateIrsImpiMappings_deleted {irs : Irs} {hs : History} {status : Status}
    (h : Ran (updateIrsImpiMappings irs.deleteImpis s) hs status) :
    status = statusAfter .ok hs ∧ status ≠ .dataContention := by
  have hnone : ∀ st : State, st ≠ .deleted → irs.deleteImpis.impisIn st = [] :=
    fun st hst => Data.elementsInState_deleteTracked hst
  rw [updateIrsImpiMappings_eq, hnone .unchanged (by decide), hnone .added (by decide)] at h
  exact ran_deletedLoop (fun hbody => ran_retryLoop ran_removeMappingPass hbody)
    (by decide) (ran_deletedOnly h)

/-- The last delete or set of `hs` failed. -/
def lastFails (hs : History) : Bool := (statusAfter .ok hs).fails

theorem DeleteEnds.lastFails_iff {hs : History} {status : Status} (h : DeleteEnds hs status)
    (hne : status ≠ .dataContention) : lastFails hs = true ↔ status ≠ .ok := by
  unfold lastFails
  rcases h with hlast | ⟨hok, hgone⟩
  · rw [hlast, Status.fails_iff]
    exact ⟨And.left, fun h => ⟨h, hne⟩⟩
  · rw [hok]
    rcases hgone .ok with h | h <;> rw [h] <;> decide

/-- An update after a part that did not fail, with the status variable set to `OK` in between. -/
theorem lastFails_append_iff {h₁ h₂ : History} {status : Status} (hfirst : lastFails h₁ = false)
    (hstatus : status = statusAfter .ok h₂) (hne : status ≠ .dataContention) :
    lastFails (h₁ ++ h₂) = true ↔ status ≠ .ok := by
  unfold lastFails at hfirst ⊢
  rw [statusAfter_append]
  rcases statusAfter_cases h₂ with ⟨r, hr⟩ | hleft
  · rw [hr, Status.fails_iff]
    rw [hr] at hstatus
    rw [← hstatus]
    exact ⟨And.left, fun h => ⟨h, hne⟩⟩
  · rw [hleft, hfirst, hstatus, hleft]
    decide

/-- `delete_irs_action` is not `OK` exactly when the last delete or set that it issued failed. -/
theorem ran_deleteIrsAction {irs irs' : Irs} {hs : History} {status : Status}
    (h : Ran (deleteIrsAction irs s) hs (status, irs')) : lastFails hs = true ↔ status ≠ .ok := by
  obtain ⟨⟨deleted, irs₁⟩, h₁, h₂, rfl, hdefault, hrest⟩ := Ran.bind_inv h
  obtain ⟨hends, hne₁⟩ := ran_deleteIrsImpu hdefault
  have hfails₁ := hends.lastFails_iff hne₁
  have hassoc : Ran (if deleted = .ok then _ else _) h₂ (status, irs') := hrest
  split at hassoc
  · -- The second operation starts its status at `OK`, and so does the third.
    rename_i hok₁
    obtain ⟨status₂, h₃, h₄, rfl, hupdate, hrest₂⟩ := Ran.bind_inv hassoc
    obtain ⟨hstatus₂, hne₂⟩ := ran_updateIrsAssociatedImpus_deleted hupdate
    have hfalse₁ : lastFails h₁ = false := by simpa [hok₁] using hfails₁
    have hfails₂ := lastFails_append_iff hfalse₁ hstatus₂ hne₂
    have hmappings : Ran (if status₂ = .ok then _ else _) h₄ (status, irs') := hrest₂
    split at hmappings
    · rename_i hok₂
      obtain ⟨status₃, h₅, h₆, rfl, hupdate', hret⟩ := Ran.bind_inv hmappings
      obtain ⟨rfl, hst⟩ := Ran.ret_iff.mp hret
      obtain ⟨rfl, -⟩ := Prod.mk.inj hst
      obtain ⟨hstatus₃, hne₃⟩ := ran_updateIrsImpiMappings_deleted hupdate'
      have hfalse₂ : lastFails (h₁ ++ h₃) = false := by simpa [hok₂] using hfails₂
      rw [List.append_nil, ← List.append_assoc]
      exact lastFails_append_iff hfalse₂ hstatus₃ hne₃
    · obtain ⟨rfl, hst⟩ := Ran.ret_iff.mp hmappings
      obtain ⟨rfl, -⟩ := Prod.mk.inj hst
      rw [List.append_nil]
      exact hfails₂
  · obtain ⟨rfl, hst⟩ := Ran.ret_iff.mp hassoc
    obtain ⟨rfl, -⟩ := Prod.mk.inj hst
    rw [List.append_nil]
    exact hfails₁

end DeleteIrs

/-! ### The delete of several IRSs -/

/-- The part is a run of `delete_irs_action` on the store `s`. -/
def Part.IsDelete (s : StoreId) (p : Part) : Prop :=
  ∃ irs', Ran (deleteIrsAction p.irs s) p.calls (p.status, irs')

/-- The status that the parts leave, the last one's. -/
def lastStatus (status : Status) (parts : List Part) : Status :=
  (parts.getLast?.map Part.status).getD status

theorem lastStatus_cons (status : Status) (p : Part) (parts : List Part) :
    lastStatus status (p :: parts) = lastStatus p.status parts := by
  unfold lastStatus
  cases parts with
  | nil => rfl
  | cons q parts => rw [List.getLast?_cons_cons]; simp [List.getLast?_cons]

theorem deleteIrssAction_cons (s : StoreId) (irs : Irs) (irss : List Irs) (status : Status) :
    MemcachedCache.deleteIrssAction s (irs :: irss) status
      = (if irs.existing then deleteIrsAction irs s else pure (status, irs)) >>= fun deleted =>
        MemcachedCache.deleteIrssAction s irss deleted.1 >>= fun rest =>
          pure (rest.1, deleted.2 :: rest.2) := by
  rw [MemcachedCache.deleteIrssAction]
  cases irs.existing <;> rfl

/-- The deletes of `delete_irss_action`, in the order of the list, and its status. -/
theorem ran_deleteIrssAction {s : StoreId} {irss irss' : List Irs} {hs : History}
    {status status' : Status}
    (h : Ran (MemcachedCache.deleteIrssAction s irss status) hs (status', irss')) :
    ∃ parts : List Part, parts.map Part.irs = irss.filter (·.existing) ∧
      (∀ p ∈ parts, p.IsDelete s) ∧ hs = parts.flatMap Part.calls ∧
      status' = lastStatus status parts := by
  induction irss generalizing status hs irss' with
  | nil =>
    obtain ⟨rfl, hst⟩ := Ran.ret_iff.mp h
    obtain ⟨rfl, -⟩ := Prod.mk.inj hst
    exact ⟨[], rfl, by simp, rfl, rfl⟩
  | cons irs irss ih =>
    rw [deleteIrssAction_cons] at h
    obtain ⟨⟨deleted, irs₁⟩, h₁, h₂, rfl, hfirst, hrest⟩ := Ran.bind_inv h
    obtain ⟨⟨rest, irss₁⟩, h₃, h₄, rfl, hothers, hret⟩ := Ran.bind_inv hrest
    obtain ⟨rfl, hst⟩ := Ran.ret_iff.mp hret
    obtain ⟨rfl, -⟩ := Prod.mk.inj hst
    obtain ⟨parts, hmap, hparts, rfl, hlast⟩ := ih hothers
    rw [List.append_nil]
    split at hfirst
    · rename_i hexisting
      refine ⟨{ irs := irs, calls := h₁, status := deleted } :: parts, ?_, fun p hp => ?_, by simp, ?_⟩
      · rw [List.filter_cons_of_pos hexisting, List.map_cons, hmap]
      · rcases List.mem_cons.mp hp with rfl | hp
        · exact ⟨irs₁, hfirst⟩
        · exact hparts p hp
      · rw [lastStatus_cons]
        exact hlast
    · -- An IRS that does not exist is passed over, and is no part of the run.
      rename_i hnew
      obtain ⟨rfl, hst₁⟩ := Ran.ret_iff.mp hfirst
      obtain ⟨rfl, -⟩ := Prod.mk.inj hst₁
      refine ⟨parts, ?_, hparts, by simp, hlast⟩
      rw [List.filter_cons_of_neg hnew]
      exact hmap

theorem only_deleteIrssAction (s : StoreId) (irss : List Irs) (status : Status) :
    Only (Call.On s) (MemcachedCache.deleteIrssAction s irss status) := by
  induction irss generalizing status with
  | nil => exact .ret _
  | cons irs irss ih =>
    rw [deleteIrssAction_cons]
    refine .bind ?_ fun deleted => .bind (ih _) fun rest => .ret _
    split
    · exact only_deleteIrsAction
    · exact .ret _

/-- The answer to a delete or a set for an associated IMPU or an IMPI mapping. -/
def partAnswer? : Event Call Call.Resp → Option Status
  | ⟨.deleteImpu _ (.associated _), r⟩ => some r
  | ⟨.setImpiMapping _ _, r⟩ => some r
  | ⟨.deleteImpiMapping _ _, r⟩ => some r
  | _ => none

/-- No delete or set for an associated IMPU or a mapping failed. -/
def Part.NoneFailed (failed : Status → Bool) (p : Part) : Prop :=
  ∀ r ∈ p.calls.filterMap partAnswer?, failed r = false

/-- The failures of a multiple delete are reported. It returns `OK`, and does anything after the
deletes on the local store (the progress callback, the remote stores), only if every delete of
an IRS was `OK`. A delete of an IRS is `OK` only if none of its writes for an associated IMPU or
a mapping failed. If a delete of an IRS is not `OK`, a status other than `OK` is returned.

`failed` is what counts as a failure: every answer but `OK`, or every answer but `OK` and a
conflict, after which the loops make the write again. -/
structure FailuresReported (failed : Status → Bool) (status : Status) (hs : History)
    (parts : List Part) : Prop where
  success : status = .ok ∨ hs ≠ parts.flatMap Part.calls → ∀ p ∈ parts, p.status = .ok
  writes : ∀ p ∈ parts, p.status = .ok → p.NoneFailed failed
  failure : (∃ p ∈ parts, p.status ≠ .ok) → status ≠ .ok

/-- In every run of `delete_implicit_registration_sets`, the failures are reported if and only if
each IRS has a failure as the last answer to its deletes and sets or no failed write of an
associated IMPU or a mapping, and the last existing IRS has a failure as its last answer as
soon as some IRS has. -/
theorem deletes_reported_iff (failed : Status → Bool) (cache : MemcachedCache)
    (irss irss' : List Irs) (hs : History) (status : Status)
    (h : Ran (cache.deleteImplicitRegistrationSets irss) hs (status, irss')) :
    ∃ (parts : List Part) (post : History), parts.map Part.irs = irss.filter (·.existing) ∧
      (∀ p ∈ parts, p.IsDelete cache.localStore) ∧ hs = parts.flatMap Part.calls ++ post ∧
      (FailuresReported failed status hs parts ↔
        (∀ p ∈ parts, lastFails p.calls = true ∨ p.NoneFailed failed) ∧
        ((∃ p ∈ parts, lastFails p.calls = true) →
          ∃ p, parts.getLast? = some p ∧ lastFails p.calls = true)) := by
  obtain ⟨pre, irss₁, hlocal, hcases⟩ :=
    ran_perform (fun s irss => only_deleteIrssAction s irss .ok) h
  obtain ⟨parts, hmap, hparts, rfl, hlast⟩ := ran_deleteIrssAction hlocal
  have hpart : ∀ p ∈ parts, (lastFails p.calls = true ↔ p.status ≠ .ok) := by
    intro p hp
    obtain ⟨irs', hran⟩ := hparts p hp
    exact ran_deleteIrsAction hran
  -- The status of the multiple delete is the status of the last part.
  have hstatus : status ≠ .ok ↔ ∃ p, parts.getLast? = some p ∧ lastFails p.calls = true := by
    rw [hlast, lastStatus]
    cases hget : parts.getLast? with
    | none => simp
    | some p => simp [hpart p (List.mem_of_getLast? hget)]
  -- The progress callback and the remote stores come only after `OK`.
  have hpost : ∃ post, hs = parts.flatMap Part.calls ++ post ∧
      (hs ≠ parts.flatMap Part.calls → status = .ok) := by
    rcases hcases with ⟨-, hhs, -⟩ | ⟨hok, post, hhs, -⟩
    · exact ⟨[], by simp [hhs], fun hne => absurd hhs hne⟩
    · exact ⟨_, hhs, fun _ => hok⟩
  obtain ⟨post, hhs, hok⟩ := hpost
  refine ⟨parts, post, hmap, hparts, hhs, ?_⟩
  constructor
  · intro hreported
    refine ⟨fun p hp => ?_, ?_⟩
    · by_cases hp' : p.status = .ok
      · exact .inr (hreported.writes p hp hp')
      · exact .inl ((hpart p hp).mpr hp')
    · rintro ⟨p, hp, hfails⟩
      exact hstatus.mp (hreported.failure ⟨p, hp, (hpart p hp).mp hfails⟩)
  · rintro ⟨hwrites, hlasts⟩
    have hfailure : (∃ p ∈ parts, p.status ≠ .ok) → status ≠ .ok := by
      rintro ⟨p, hp, hne⟩
      exact hstatus.mpr (hlasts ⟨p, hp, (hpart p hp).mpr hne⟩)
    refine ⟨fun hdone p hp => ?_, fun p hp hp' => ?_, hfailure⟩
    · by_contra hne
      rcases hdone with hdone | hdone
      · exact hfailure ⟨p, hp, hne⟩ hdone
      · exact hfailure ⟨p, hp, hne⟩ (hok hdone)
    · rcases hwrites p hp with hfails | hnone
      · exact absurd hp' ((hpart p hp).mp hfails)
      · exact hnone

/-- A subscriber read from the local store, with the associated IMPUs `assoc`. -/
def subscriber (impu : String) (assoc : List String) : Irs :=
  .ofDefaultImpu
    { impu := impu, associatedImpus := assoc, impis := [], registrationState := .registered,
      chargingAddresses := {}, serviceProfile := "profile", cas := 1, expiry := 100,
      store := some 0 } 0

/-- The delete of a subscriber without associated IMPUs, with the answer of the store. -/
def deletedPart (impu : String) (answer : Status) : Part where
  irs := subscriber impu []
  calls := [⟨.time, (10 : Int)⟩,
    ⟨.deleteImpu 0 (.default ((subscriber impu []).markAsRefreshed.createImpu 1 (some 0) 10)), answer⟩]
  status := answer

theorem isDelete_deletedPart (impu : String) {answer : Status} (h : answer ≠ .dataContention) :
    (deletedPart impu answer).IsDelete 0 := by
  cases answer with
  | ok => exact ⟨_, .call (.unroll (.call (.ret _)))⟩
  | dataContention => exact absurd rfl h
  | notFound => exact ⟨_, .call (.unroll (.call (.ret _)))⟩
  | error => exact ⟨_, .call (.unroll (.call (.ret _)))⟩

/-- The delete of two subscribers, with the answer to the first. -/
def twoDeletes (answer : Status) : List Part :=
  [deletedPart "sip:a@example.com" answer, deletedPart "sip:b@example.com" .ok]

def twoDeletesHistory (answer : Status) : History :=
  (twoDeletes answer).flatMap Part.calls ++ [⟨.progressCb, ()⟩]

theorem ran_twoDeletes {answer : Status} (h : answer ≠ .dataContention) :
    ∃ irss', Ran (oneStore.deleteImplicitRegistrationSets
      [subscriber "sip:a@example.com" [], subscriber "sip:b@example.com" []])
      (twoDeletesHistory answer) (.ok, irss') := by
  cases answer with
  | ok => exact ⟨_, .call (.unroll (.call (.call (.unroll (.call (.call (.ret _)))))))⟩
  | dataContention => exact absurd rfl h
  | notFound => exact ⟨_, .call (.unroll (.call (.call (.unroll (.call (.call (.ret _)))))))⟩
  | error => exact ⟨_, .call (.unroll (.call (.call (.unroll (.call (.call (.ret _)))))))⟩

/-- An alias of the subscriber, as the store reads it. -/
def aliasRecord (impu : String) : Impu :=
  .associated
    { impu := impu, defaultImpu := "sip:d@example.com", cas := 1, expiry := 100, store := some 0 }

/-- The delete of a subscriber with two aliases. The store fails to delete the first alias. -/
def aliasesPart : Part where
  irs := subscriber "sip:d@example.com" ["sip:x@example.com", "sip:y@example.com"]
  calls := [⟨.time, (10 : Int)⟩,
    ⟨.deleteImpu 0 (.default ((subscriber "sip:d@example.com"
      ["sip:x@example.com", "sip:y@example.com"]).markAsRefreshed.createImpu 1 (some 0) 10)),
      Status.ok⟩,
    ⟨.getImpu 0 "sip:x@example.com", (Status.ok, some (aliasRecord "sip:x@example.com"))⟩,
    ⟨.deleteImpu 0 (aliasRecord "sip:x@example.com"), Status.error⟩,
    ⟨.getImpu 0 "sip:y@example.com", (Status.ok, some (aliasRecord "sip:y@example.com"))⟩,
    ⟨.deleteImpu 0 (aliasRecord "sip:y@example.com"), Status.ok⟩]
  status := .ok

/-- Two subscribers, deleted by a store that answers `OK`. -/
theorem deletes_reported_iff_two :
    ∃ (parts : List Part) (post : History), parts.map Part.irs
        = [subscriber "sip:a@example.com" [], subscriber "sip:b@example.com" []] ∧
      (∀ p ∈ parts, p.IsDelete 0) ∧ twoDeletesHistory .ok = parts.flatMap Part.calls ++ post ∧
      (FailuresReported Status.fails .ok (twoDeletesHistory .ok) parts ↔
        (∀ p ∈ parts, lastFails p.calls = true ∨ p.NoneFailed Status.fails) ∧
        ((∃ p ∈ parts, lastFails p.calls = true) →
          ∃ p, parts.getLast? = some p ∧ lastFails p.calls = true)) := by
  obtain ⟨irss', hran⟩ := ran_twoDeletes (show Status.ok ≠ .dataContention by decide)
  exact deletes_reported_iff Status.fails oneStore _ _ _ _ hran

/-- The store fails to delete the first of two subscribers, and the multiple delete returns `OK`
and calls the progress callback. It fails to delete the first of two aliases of one
subscriber, and `delete_irs_action` returns `OK`. -/
theorem deletes_reported_lost :
    ((∀ p ∈ twoDeletes .error, p.IsDelete 0) ∧
      (∃ irss', Ran (oneStore.deleteImplicitRegistrationSets
        [subscriber "sip:a@example.com" [], subscriber "sip:b@example.com" []])
        (twoDeletesHistory .error) (.ok, irss')) ∧
      ¬ FailuresReported Status.fails .ok (twoDeletesHistory .error) (twoDeletes .error)) ∧
    aliasesPart.IsDelete 0 ∧ aliasesPart.status = .ok ∧ ¬ aliasesPart.NoneFailed Status.fails := by
  refine ⟨⟨?_, ran_twoDeletes (by decide), fun hreported => ?_⟩, ?_, rfl, fun hnone => ?_⟩
  · intro p hp
    rcases List.mem_cons.mp hp with rfl | hp
    · exact isDelete_deletedPart _ (by decide)
    · rw [List.mem_singleton.mp hp]
      exact isDelete_deletedPart _ (by decide)
  · exact absurd (hreported.success (.inl rfl) _ List.mem_cons_self) (by decide)
  · exact ⟨_, .call (.unroll (.call (.unroll (.call (.call (.unroll (.call (.call (.ret _)))))))))⟩
  · exact absurd (hnone .error (by decide)) (by decide)

end Homestead

import Homestead.Lib.Traces
import Homestead.Proofs.Calls

/-!
# `Homestead.Proofs.Answers`: the actions of the cache under any answers

The store may answer any call with anything here. A run of an action is a history of calls
with their answers (`Ran`), and `World.after` is what the history leaves of the stores.

* `only_putIrsAction` and `only_deleteIrsAction`: an action calls its own store.
* `ran_putIrsImpu`: the first operation of `put_irs_action` ends with the call that decides its
  status (`Decides`), and no call before that call wrote anything (`Undecided`).
-/

set_option autoImplicit false

namespace Homestead

open CacheProg

/-! ### What a history leaves of the stores -/

/-- The stores after the calls of `hs`. -/
def World.after (w : World) (hs : History) : World := hs.foldl (fun w e => w.answered e.1 e.2) w

/-- A write that was answered `OK`. -/
def madeWrite : Event Call Call.Resp → Bool
  | ⟨.setImpu _ _, r⟩ => Status.isOk r
  | ⟨.setImpuWithoutCas _ _, r⟩ => Status.isOk r
  | ⟨.addImpu _ _, r⟩ => Status.isOk r
  | ⟨.deleteImpu _ _, r⟩ => Status.isOk r
  | ⟨.setImpiMapping _ _, r⟩ => Status.isOk r
  | ⟨.deleteImpiMapping _ _, r⟩ => Status.isOk r
  | _ => false

theorem answered_of_not_madeWrite {e : Event Call Call.Resp} (h : madeWrite e = false) (w : World) :
    w.answered e.1 e.2 = w := by
  obtain ⟨o, r⟩ := e
  have hnot : ∀ {r : Status} {w₁ w₂ : World}, Status.isOk r = false →
      (if Status.isOk r then w₁ else w₂) = w₂ := by
    intro r w₁ w₂ hr
    rw [hr]
    rfl
  cases o with
  | setImpu s impu => exact hnot h
  | setImpuWithoutCas s impu => exact hnot h
  | addImpu s impu => exact hnot h
  | deleteImpu s impu => exact hnot h
  | setImpiMapping s m => exact hnot h
  | deleteImpiMapping s m => exact hnot h
  | getImpu s impu => rfl
  | getImpiMapping s impi => rfl
  | time => rfl
  | progressCb => rfl

/-- A history without a write leaves the stores as they are. -/
theorem after_of_not_madeWrite {hs : History} (h : ∀ e ∈ hs, madeWrite e = false) (w : World) :
    w.after hs = w := by
  induction hs with
  | nil => rfl
  | cons e hs ih =>
    show (w.answered e.1 e.2).after hs = w
    rw [answered_of_not_madeWrite (h e List.mem_cons_self)]
    exact ih fun e' he' => h e' (List.mem_cons_of_mem _ he')

/-- The reliable store is one of the stores that may answer anything. -/
theorem answered_serve (w : World) (o : Call) :
    (w.answered o (serve o w).1).stores = (serve o w).2.stores := by
  cases o with
  | setImpu s impu =>
    rcases serve_setImpu_cases w s impu with ⟨-, hr, hw⟩ | ⟨-, hr, hw⟩
    · rw [hr, hw]; rfl
    · rw [hr, hw]; rfl
  | addImpu s impu =>
    rcases serve_addImpu_cases w s impu with ⟨-, hr, hw⟩ | ⟨-, hr, hw⟩
    · rw [hr, hw]; rfl
    · rw [hr, hw]; rfl
  | setImpiMapping s m =>
    rcases serve_setImpiMapping_cases w s m with ⟨-, hr, hw⟩ | ⟨-, hr, hw⟩
    · rw [hr, hw]; rfl
    · rw [hr, hw]; rfl
  | setImpuWithoutCas s impu => rfl
  | deleteImpu s impu => rfl
  | deleteImpiMapping s m => rfl
  | getImpu s impu => rfl
  | getImpiMapping s impi => rfl
  | time => rfl
  | progressCb => rfl

/-- The part of a run that puts or deletes one IRS: its calls with their answers, and the status
it returned. -/
structure Part where
  irs : Irs
  calls : History
  status : Status

/-! ### The store an action calls -/

/-- A call on the store `s`, or a reading of the clock. -/
def Call.On (s : StoreId) : Call → Prop
  | .getImpu s' _ => s' = s
  | .setImpu s' _ => s' = s
  | .setImpuWithoutCas s' _ => s' = s
  | .addImpu s' _ => s' = s
  | .deleteImpu s' _ => s' = s
  | .getImpiMapping s' _ => s' = s
  | .setImpiMapping s' _ => s' = s
  | .deleteImpiMapping s' _ => s' = s
  | .time => True
  | .progressCb => False

/-- The calls that the second and third operation of an action make: none writes a default
IMPU. -/
def Call.OnParts (s : StoreId) : Call → Prop
  | .getImpu s' _ => s' = s
  | .setImpuWithoutCas s' (.associated _) => s' = s
  | .deleteImpu s' (.associated _) => s' = s
  | .getImpiMapping s' _ => s' = s
  | .setImpiMapping s' _ => s' = s
  | .deleteImpiMapping s' _ => s' = s
  | .time => True
  | _ => False

theorem Call.OnParts.on {s : StoreId} {o : Call} (h : o.OnParts s) : o.On s := by
  cases o with
  | setImpuWithoutCas s' impu =>
    cases impu with
    | default d => exact h.elim
    | associated a => exact h
  | deleteImpu s' impu =>
    cases impu with
    | default d => exact h.elim
    | associated a => exact h
  | getImpu s' impu => exact h
  | getImpiMapping s' impi => exact h
  | setImpiMapping s' m => exact h
  | deleteImpiMapping s' m => exact h
  | time => trivial
  | setImpu s' impu => exact h.elim
  | addImpu s' impu => exact h.elim
  | progressCb => exact h.elim

/-- The calls that the third operation of an action makes. -/
def Call.OnMappings (s : StoreId) : Call → Prop
  | .getImpiMapping s' _ => s' = s
  | .setImpiMapping s' _ => s' = s
  | .deleteImpiMapping s' _ => s' = s
  | .time => True
  | _ => False

theorem Call.OnMappings.onParts {s : StoreId} {o : Call} (h : o.OnMappings s) : o.OnParts s := by
  cases o with
  | getImpiMapping s' impi => exact h
  | setImpiMapping s' m => exact h
  | deleteImpiMapping s' m => exact h
  | time => trivial
  | _ => exact h.elim

section On

variable {s : StoreId} {irs : Irs}

theorem only_removeMappingPass (impi : String) (status : Status) :
    Only (Call.OnMappings s) (removeMappingPass irs s impi status) := by
  refine .call (by exact rfl) fun found => ?_
  obtain ⟨_ | _ | _ | _, _ | mapping⟩ := found
  case ok.some =>
    show Only _ (if mapping.hasDefaultImpu irs.defaultImpu then _ else _)
    split
    · show Only _ (if (mapping.removeDefaultImpu irs.defaultImpu).isEmpty then _ else _)
      split
      · exact .call (by exact rfl) fun _ => .ret _
      · exact .call (by exact rfl) fun _ => .ret _
    · exact .ret _
  all_goals exact .ret _

theorem only_refreshMappingPass (impi : String) (status : Status) :
    Only (Call.OnMappings s) (refreshMappingPass irs s impi status) :=
  .call (by exact rfl) fun _ => .call (by exact trivial) fun _ => .call (by exact rfl) fun _ => .ret _

theorem only_addMappingPass (impi : String) (st : AddMappingState) :
    Only (Call.OnMappings s) (addMappingPass irs s impi st) := by
  refine .call (by exact rfl) fun (status : Status) => ?_
  show Only _ (if status = .dataContention then _ else _)
  split
  · refine .call (by exact rfl) fun found => ?_
    obtain ⟨_ | _ | _ | _, _ | mapping⟩ := found
    case ok.some => exact .call (by exact trivial) fun _ => .ret _
    all_goals exact .ret _
  · exact .ret _

theorem only_mappings : Only (Call.OnMappings s) (updateIrsImpiMappings irs s) := by
  have hadd : ∀ impi status, Only (Call.OnMappings s) (addMapping irs s impi status) := by
    intro impi status
    refine .call (by exact trivial) fun now => ?_
    show Only _ (Prog.loop (addMappingPass irs s impi) _ _ >>= _)
    exact .bind (.loop (only_addMappingPass impi) _) fun st => .ret _
  rw [updateIrsImpiMappings_eq]
  refine .bind (.forEach (fun impi _ => .loop (only_removeMappingPass impi)) _) fun status =>
    .bind ?_ fun status => .forEach (fun impi _ => hadd impi) _
  split
  · exact .forEach (fun impi _ => .loop (only_refreshMappingPass impi)) _
  · exact .ret _

theorem only_updateIrsImpiMappings : Only (Call.OnParts s) (updateIrsImpiMappings irs s) :=
  only_mappings.mono fun _ h => h.onParts

theorem only_removeAssociatedImpuPass (impu : String) (status : Status) :
    Only (Call.OnParts s) (removeAssociatedImpuPass irs s impu status) := by
  refine .call (by exact rfl) fun found => ?_
  obtain ⟨status', _ | d | a⟩ := found
  · exact .ret _
  · exact .ret _
  · show Only _ (if a.defaultImpu = irs.defaultImpu then _ else _)
    split
    · exact .call (by exact rfl) fun _ => .ret _
    · exact .ret _

theorem only_updateIrsAssociatedImpus : Only (Call.OnParts s) (updateIrsAssociatedImpus irs s) := by
  have hwrite : ∀ impu status, Only (Call.OnParts s) (writeAssociatedImpu irs s impu status) :=
    fun impu status => .call (by exact trivial) fun now => .call (by exact rfl) fun _ => .ret _
  rw [updateIrsAssociatedImpus_eq]
  refine .bind (.forEach (fun impu _ => .loop (only_removeAssociatedImpuPass impu)) _) fun status =>
    .bind ?_ fun status => .forEach (fun impu _ => hwrite impu) _
  split
  · exact .forEach (fun impu _ => hwrite impu) _
  · exact .ret _

theorem only_apply (action : IrsImpuAction) (d : DefaultImpu) :
    Only (Call.On s) (action.apply s d) := by
  cases action with
  | setImpu => exact .call (by exact rfl) fun _ => .ret _
  | deleteImpu => exact .call (by exact rfl) fun _ => .ret _

theorem only_rereadPass (action : IrsImpuAction) (irs : Irs) :
    Only (Call.On s) (rereadPass action s irs) := by
  have hlast : ∀ irs' cas store, Only (Call.On s) (Irs.getImpuFromImpu irs' cas store >>= fun impu =>
      action.apply s impu >>= fun status =>
        pure { status := status, irs := irs', impu := none : ImpuActionState }) :=
    fun irs' cas store => .call (by exact trivial) fun now => (only_apply action _).bind fun _ => .ret _
  refine .call (by exact rfl) fun found => ?_
  obtain ⟨status, _ | d | a⟩ := found
  · cases action with
    | deleteImpu => exact .ret _
    | setImpu => exact hlast irs 0 none
  · show Only _ (irs.mergeFromStore d >>= _)
    unfold Irs.mergeFromStore
    split
    · exact hlast _ d.cas d.store
    · exact .call (by exact trivial) fun now => hlast _ d.cas d.store
  · show Only _ (if irs.refreshed then _ else _)
    split
    · exact hlast irs a.cas a.store
    · exact .ret _

theorem only_performIrsImpuAction (action : IrsImpuAction) (irs : Irs) :
    Only (Call.On s) (performIrsImpuAction action irs s) := by
  have hpass : ∀ st, Only (Call.On s) (impuActionPass action s st) := by
    intro st
    unfold impuActionPass
    split
    · exact (only_apply action _).bind fun _ => .ret _
    · exact only_rereadPass action st.irs
  refine .bind ?_ fun impu => .bind (.loop hpass _) fun st => .ret _
  unfold Irs.getImpuForStore
  split
  · exact .call (by exact trivial) fun now => .ret _
  · exact .ret _

theorem only_createIrsImpu : Only (Call.On s) (createIrsImpu irs s) := by
  refine .call (by exact trivial) fun now => ?_
  show Only _ (if irs.registrationState = .registered then _ else _)
  split
  · exact .call (by exact rfl) fun _ => .ret _
  · refine .call (by exact rfl) fun (status : Status) => ?_
    show Only _ (if status = .dataContention then _ else _)
    split <;> exact .ret _

theorem only_putIrsImpu : Only (Call.On s) (putIrsImpu irs s) := by
  unfold putIrsImpu
  split
  · exact only_performIrsImpuAction .setImpu irs
  · exact only_createIrsImpu.bind fun _ => .ret _

/-- `put_irs_action` calls its own store. -/
theorem only_putIrsAction : Only (Call.On s) (putIrsAction irs s) := by
  refine only_putIrsImpu.bind fun put => ?_
  split
  · exact .bind (only_updateIrsAssociatedImpus.mono fun _ h => h.on) fun _ =>
      .bind (only_updateIrsImpiMappings.mono fun _ h => h.on) fun _ => .ret _
  · exact .ret _

/-- `delete_irs_action` calls its own store. -/
theorem only_deleteIrsAction : Only (Call.On s) (deleteIrsAction irs s) := by
  refine .bind (only_performIrsImpuAction .deleteImpu _) fun deleted => ?_
  split
  · refine .bind (only_updateIrsAssociatedImpus.mono fun _ h => h.on) fun status => ?_
    split
    · exact .bind (only_updateIrsImpiMappings.mono fun _ h => h.on) fun _ => .ret _
    · exact .ret _
  · exact .ret _

end On

/-! ### The first operation of a put -/

/-- A call of the first operation that leaves its status open: a reading of the clock, a read of
the default IMPU that does not end the operation, and a write that hit a conflict. -/
inductive Undecided (s : StoreId) (D : String) (refreshed : Bool) : Event Call Call.Resp → Prop
  | time (r : Int) : Undecided s D refreshed ⟨.time, r⟩
  | read {status : Status} {found : Option Impu}
      (hfree : refreshed = false → ∀ a, found ≠ some (.associated a)) :
      Undecided s D refreshed ⟨.getImpu s D, (status, found)⟩
  | contended {d : DefaultImpu} (hd : d.impu = D) :
      Undecided s D refreshed ⟨.setImpu s (.default d), Status.dataContention⟩

/-- The call that decides the status of the first operation of the put of `irs`, and the
status. A new IRS that is refused because there is a record already counts as put. -/
inductive Decides (s : StoreId) (irs : Irs) : Event Call Call.Resp → Status → Prop
  | set {d : DefaultImpu} {r : Status} (hexisting : irs.existing = true)
      (hd : d.impu = irs.defaultImpu) (hr : r ≠ .dataContention) :
      Decides s irs ⟨.setImpu s (.default d), r⟩ r
  | refused {status : Status} {a : AssociatedImpu} (hexisting : irs.existing = true)
      (hrefreshed : irs.refreshed = false) :
      Decides s irs ⟨.getImpu s irs.defaultImpu, (status, some (.associated a))⟩ .error
  | blind {d : DefaultImpu} {r : Status} (hnew : irs.existing = false)
      (hd : d.impu = irs.defaultImpu) : Decides s irs ⟨.setImpuWithoutCas s (.default d), r⟩ r
  | add {d : DefaultImpu} {r : Status} (hnew : irs.existing = false)
      (hstate : irs.registrationState ≠ .registered) (hd : d.impu = irs.defaultImpu) :
      Decides s irs ⟨.addImpu s (.default d), r⟩ (if r = .dataContention then .ok else r)

theorem Undecided.not_madeWrite {s : StoreId} {D : String} {refreshed : Bool}
    {e : Event Call Call.Resp} (h : Undecided s D refreshed e) : madeWrite e = false := by
  cases h <;> rfl

/-- A decision against the put is not a write. -/
theorem Decides.not_madeWrite {s : StoreId} {irs : Irs} {e : Event Call Call.Resp} {status : Status}
    (h : Decides s irs e status) (hstatus : status ≠ .ok) : madeWrite e = false := by
  cases h with
  | set _ _ _ => exact decide_eq_false hstatus
  | refused _ _ => rfl
  | blind _ _ => exact decide_eq_false hstatus
  | @add d r _ _ _ =>
    refine decide_eq_false ?_
    rintro rfl
    exact hstatus rfl

section FirstOperation

variable {s : StoreId}

/-- How a pass of `update_irs_impu` ends. -/
def PutPassEnds (s : StoreId) (irs : Irs) (hs : History) (status : Status) : Prop :=
  ∃ pre e, hs = pre ++ [e] ∧ (∀ e' ∈ pre, Undecided s irs.defaultImpu irs.refreshed e') ∧
    ((∃ d : DefaultImpu, d.impu = irs.defaultImpu ∧ e = ⟨.setImpu s (.default d), status⟩) ∨
      irs.refreshed = false ∧ status = .error ∧
        ∃ status' a, e = ⟨.getImpu s irs.defaultImpu, (status', some (.associated a))⟩)

/-- The write that ends a pass, after its reading of the clock. -/
theorem passEnds_write {irs irs' : Irs} {cas : Nat} {store : Option StoreId} {pre hs : History}
    {st : ImpuActionState} (hD : irs'.defaultImpu = irs.defaultImpu)
    (hpre : ∀ e ∈ pre, Undecided s irs.defaultImpu irs.refreshed e)
    (h : Ran (Irs.getImpuFromImpu irs' cas store >>= fun impu =>
      IrsImpuAction.setImpu.apply s impu >>= fun status =>
        pure { status := status, irs := irs', impu := none : ImpuActionState }) hs st) :
    PutPassEnds s irs (pre ++ hs) st.status ∧ st.irs = irs' ∧ st.impu = none := by
  obtain ⟨now, hs₁, rfl, hran⟩ := Ran.call_iff.mp h
  obtain ⟨status, hs₂, rfl, hret⟩ := Ran.call_iff.mp hran
  obtain ⟨rfl, rfl⟩ := Ran.ret_iff.mp hret
  refine ⟨⟨pre ++ [⟨.time, now⟩], ⟨.setImpu s (.default (irs'.createImpu cas store now)), status⟩,
    by simp, fun e he => ?_, .inl ⟨_, hD, rfl⟩⟩, rfl, rfl⟩
  rcases List.mem_append.mp he with he | he
  · exact hpre e he
  · rw [List.mem_singleton.mp he]
    exact .time now

/-- A pass that reads the store first. -/
theorem ran_rereadPass {irs : Irs} {hs : History} {st : ImpuActionState}
    (h : Ran (rereadPass .setImpu s irs) hs st) :
    PutPassEnds s irs hs st.status ∧ st.irs.defaultImpu = irs.defaultImpu ∧
      st.irs.refreshed = irs.refreshed ∧ st.impu = none := by
  obtain ⟨⟨status, found⟩, hs₁, rfl, hran⟩ := Ran.call_iff.mp h
  -- The read itself decides nothing, unless it found an associated IMPU and there is no refresh.
  have hread : (∀ a, found ≠ some (.associated a)) ∨ irs.refreshed = true →
      ∀ e ∈ [(⟨.getImpu s irs.defaultImpu, (status, found)⟩ : Event Call Call.Resp)],
        Undecided s irs.defaultImpu irs.refreshed e := by
    intro hfree e he
    rw [List.mem_singleton.mp he]
    refine .read fun hrefreshed => ?_
    rcases hfree with hfree | htrue
    · exact hfree
    · rw [hrefreshed] at htrue
      cases htrue
  obtain _ | d | a := found
  · -- No record is known, and the put creates one.
    obtain ⟨hends, hirs, himpu⟩ := passEnds_write rfl (hread (.inl (by simp))) hran
    exact ⟨hends, congrArg _ hirs, congrArg _ hirs, himpu⟩
  · -- The merge keeps the default IMPU and the refresh flag.
    have hfree := hread (.inl (by simp))
    have hdefault : Ran (irs.mergeFromStore d >>= _) hs₁ st := hran
    obtain ⟨irs', h₁, h₂, rfl, hmerge, hwrite⟩ := Ran.bind_inv hdefault
    unfold Irs.mergeFromStore at hmerge
    split at hmerge
    · obtain ⟨rfl, rfl⟩ := Ran.ret_iff.mp hmerge
      have hD : (irs.updateFromImpuFromStore d 0).defaultImpu = irs.defaultImpu := rfl
      obtain ⟨hends, hirs, himpu⟩ := passEnds_write hD hfree hwrite
      rw [hirs]
      exact ⟨hends, rfl, rfl, himpu⟩
    · obtain ⟨now, h₃, rfl, hmerged⟩ := Ran.call_iff.mp hmerge
      obtain ⟨rfl, rfl⟩ := Ran.ret_iff.mp hmerged
      have hpre : ∀ e ∈ [(⟨.getImpu s irs.defaultImpu, (status, some (.default d))⟩ :
          Event Call Call.Resp), ⟨.time, now⟩], Undecided s irs.defaultImpu irs.refreshed e := by
        intro e he
        rcases List.mem_cons.mp he with rfl | he
        · exact hfree _ List.mem_cons_self
        · rw [List.mem_singleton.mp he]
          exact .time now
      have hD : (irs.updateFromImpuFromStore d now).defaultImpu = irs.defaultImpu := rfl
      obtain ⟨hends, hirs, himpu⟩ := passEnds_write hD hpre hwrite
      rw [hirs]
      exact ⟨hends, rfl, rfl, himpu⟩
  · -- An associated IMPU is taken over, or ends the operation with an error.
    have hassoc : Ran (if irs.refreshed then _ else _) hs₁ st := hran
    split at hassoc
    · rename_i hrefreshed
      obtain ⟨hends, hirs, himpu⟩ := passEnds_write rfl (hread (.inr hrefreshed)) hassoc
      exact ⟨hends, congrArg _ hirs, congrArg _ hirs, himpu⟩
    · rename_i hrefreshed
      obtain ⟨rfl, rfl⟩ := Ran.ret_iff.mp hassoc
      have hfalse : irs.refreshed = false := by simpa using hrefreshed
      exact ⟨⟨[], _, rfl, by simp, .inr ⟨hfalse, rfl, status, a, rfl⟩⟩, rfl, rfl, rfl⟩

/-- A pass of `update_irs_impu`, which writes the record it has or reads the store first. -/
theorem ran_impuActionPass {st st' : ImpuActionState} {hs : History}
    (hrecord : ∀ d, st.impu = some d → d.impu = st.irs.defaultImpu)
    (h : Ran (impuActionPass .setImpu s st) hs st') :
    PutPassEnds s st.irs hs st'.status ∧ st'.irs.defaultImpu = st.irs.defaultImpu ∧
      st'.irs.refreshed = st.irs.refreshed ∧ st'.impu = none := by
  unfold impuActionPass at h
  cases himpu : st.impu with
  | none =>
    rw [himpu] at h
    exact ran_rereadPass h
  | some d =>
    rw [himpu] at h
    obtain ⟨status, hs₁, rfl, hran⟩ := Ran.call_iff.mp h
    obtain ⟨rfl, rfl⟩ := Ran.ret_iff.mp hran
    exact ⟨⟨[], _, rfl, by simp, .inl ⟨d, hrecord d himpu, rfl⟩⟩, rfl, rfl, rfl⟩

/-- The loop of `update_irs_impu`. The passes before the last one hit a conflict. -/
theorem ran_updateLoop {st st' : ImpuActionState} {hs : History}
    (hrecord : ∀ d, st.impu = some d → d.impu = st.irs.defaultImpu)
    (h : Ran (Prog.loop (impuActionPass .setImpu s) (fun st => st.status.isContention) st) hs st') :
    PutPassEnds s st.irs hs st'.status ∧ st'.status ≠ .dataContention := by
  refine Ran.loop_induct (P := fun st hs st' =>
    (∀ d, st.impu = some d → d.impu = st.irs.defaultImpu) →
      PutPassEnds s st.irs hs st'.status ∧ st'.status ≠ .dataContention) ?_ ?_ h hrecord
  · intro st hs st' hpass hlast hrecord
    exact ⟨(ran_impuActionPass hrecord hpass).1, of_decide_eq_false hlast⟩
  · intro st h₁ st₁ h₂ st' hpass hagain ih hrecord
    obtain ⟨hends, hD, hrefreshed, himpu⟩ := ran_impuActionPass hrecord hpass
    have hcontended : st₁.status = .dataContention := of_decide_eq_true hagain
    obtain ⟨⟨pre₂, e₂, rfl, hpre₂, hlast⟩, hne⟩ := ih (by rw [himpu]; simp)
    rw [hD, hrefreshed] at hpre₂ hlast
    -- The pass ended with a write, because the other end is an error.
    obtain ⟨pre₁, e₁, rfl, hpre₁, ⟨d, hd, rfl⟩ | ⟨-, herror, -⟩⟩ := hends
    · refine ⟨⟨(pre₁ ++ [⟨.setImpu s (.default d), st₁.status⟩]) ++ pre₂, e₂, by simp,
        fun e he => ?_, hlast⟩, hne⟩
      rcases List.mem_append.mp he with he | he
      · rcases List.mem_append.mp he with he | he
        · exact hpre₁ e he
        · rw [List.mem_singleton.mp he, hcontended]
          exact .contended hd
      · exact hpre₂ e he
    · rw [hcontended] at herror
      cases herror

theorem Undecided.cons_time {D : String} {refreshed : Bool} {pre : History}
    (h : ∀ e ∈ pre, Undecided s D refreshed e) (now : Int) :
    ∀ e ∈ (⟨.time, now⟩ : Event Call Call.Resp) :: pre, Undecided s D refreshed e := by
  intro e he
  rcases List.mem_cons.mp he with rfl | he
  · exact .time now
  · exact h e he

/-- The first operation of `put_irs_action`: its last call decides. -/
theorem ran_putIrsImpu {irs irs' : Irs} {hs : History} {status : Status}
    (h : Ran (putIrsImpu irs s) hs (status, irs')) :
    ∃ pre e, hs = pre ++ [e] ∧ (∀ e' ∈ pre, Undecided s irs.defaultImpu irs.refreshed e') ∧
      Decides s irs e status := by
  unfold putIrsImpu at h
  split at h
  · rename_i hexisting
    obtain ⟨impu, h₁, h₂, rfl, himpu, hrest⟩ := Ran.bind_inv h
    obtain ⟨st, h₃, h₄, rfl, hloop, hret⟩ := Ran.bind_inv hrest
    obtain ⟨rfl, hst⟩ := Ran.ret_iff.mp hret
    obtain ⟨rfl, rfl⟩ := Prod.mk.inj hst
    have hend : ∀ {e : Event Call Call.Resp}, ((∃ d : DefaultImpu, d.impu = irs.defaultImpu ∧
        e = ⟨.setImpu s (.default d), st.status⟩) ∨ irs.refreshed = false ∧ st.status = .error ∧
        ∃ status' a, e = ⟨.getImpu s irs.defaultImpu, (status', some (.associated a))⟩) →
        st.status ≠ .dataContention → Decides s irs e st.status := by
      rintro e (⟨d, hd, rfl⟩ | ⟨hrefreshed, herror, status', a, rfl⟩) hne
      · exact .set hexisting hd hne
      · rw [herror]
        exact .refused hexisting hrefreshed
    rw [List.append_nil]
    -- The record of the IRS itself, if it is from this store, takes one reading of the clock.
    unfold Irs.getImpuForStore at himpu
    split at himpu
    · obtain ⟨now, h₅, rfl, hrecord'⟩ := Ran.call_iff.mp himpu
      obtain ⟨rfl, rfl⟩ := Ran.ret_iff.mp hrecord'
      have hrecord : ∀ d, some (irs.createImpu irs.cas irs.store now) = some d →
          d.impu = irs.defaultImpu := by
        rintro d hd
        rw [← Option.some.inj hd]
        rfl
      obtain ⟨⟨pre, e, rfl, hpre, hlast⟩, hne⟩ := ran_updateLoop hrecord hloop
      exact ⟨⟨.time, now⟩ :: pre, e, rfl, Undecided.cons_time hpre now, hend hlast hne⟩
    · obtain ⟨rfl, rfl⟩ := Ran.ret_iff.mp himpu
      obtain ⟨⟨pre, e, rfl, hpre, hlast⟩, hne⟩ := ran_updateLoop (by simp) hloop
      exact ⟨pre, e, rfl, hpre, hend hlast hne⟩
  · -- A new IRS: one write decides.
    rename_i hexisting
    have hnew : irs.existing = false := by simpa using hexisting
    obtain ⟨status', h₁, h₂, rfl, hcreate, hret⟩ := Ran.bind_inv h
    obtain ⟨rfl, hst⟩ := Ran.ret_iff.mp hret
    obtain ⟨rfl, -⟩ := Prod.mk.inj hst
    obtain ⟨now, h₃, rfl, htimed⟩ := Ran.call_iff.mp hcreate
    have hwrite : Ran (if irs.registrationState = .registered then _ else _) h₃ status := htimed
    rw [List.append_nil]
    split at hwrite
    · obtain ⟨r, h₄, rfl, hdone⟩ := Ran.call_iff.mp hwrite
      obtain ⟨rfl, rfl⟩ := Ran.ret_iff.mp hdone
      exact ⟨[⟨.time, now⟩], _, rfl, Undecided.cons_time (by simp) now, .blind hnew rfl⟩
    · rename_i hstate
      obtain ⟨(r : Status), h₄, rfl, hadd⟩ := Ran.call_iff.mp hwrite
      have hdone : Ran (if r = .dataContention then (pure .ok : CacheProg Status)
        else pure r) h₄ status := hadd
      have hstatus : h₄ = [] ∧ status = if r = .dataContention then .ok else r := by
        split at hdone
        · rename_i hr
          obtain ⟨rfl, rfl⟩ := Ran.ret_iff.mp hdone
          exact ⟨rfl, (if_pos hr).symm⟩
        · rename_i hr
          obtain ⟨rfl, rfl⟩ := Ran.ret_iff.mp hdone
          exact ⟨rfl, (if_neg hr).symm⟩
      obtain ⟨rfl, rfl⟩ := hstatus
      exact ⟨[⟨.time, now⟩], _, rfl, Undecided.cons_time (by simp) now, .add hnew hstate rfl⟩

/-- `put_irs_action`: the first operation, and on `OK` the two others, whose statuses are not
looked at. -/
theorem ran_putIrsAction {irs irs' : Irs} {hs : History} {status : Status}
    (h : Ran (putIrsAction irs s) hs (status, irs')) :
    ∃ pre e post, hs = pre ++ e :: post ∧
      (∀ e' ∈ pre, Undecided s irs.defaultImpu irs.refreshed e') ∧ Decides s irs e status ∧
      (∀ e' ∈ post, e'.1.OnParts s) ∧ (status ≠ .ok → post = []) := by
  obtain ⟨⟨put, irs₁⟩, h₁, h₂, rfl, hput, hrest⟩ := Ran.bind_inv h
  obtain ⟨pre, e, rfl, hpre, hdecides⟩ := ran_putIrsImpu hput
  have hothers : Ran (if put = .ok then _ else _) h₂ (status, irs') := hrest
  split at hothers
  · rename_i hok
    obtain ⟨_, h₃, h₄, rfl, hassoc, hmappings⟩ := Ran.bind_inv hothers
    obtain ⟨_, h₅, h₆, rfl, hmap, hret⟩ := Ran.bind_inv hmappings
    obtain ⟨rfl, hst⟩ := Ran.ret_iff.mp hret
    obtain ⟨rfl, rfl⟩ := Prod.mk.inj hst
    refine ⟨pre, e, h₃ ++ h₅, by simp, hpre, hdecides, fun e' he' => ?_, fun hne => absurd hok hne⟩
    rcases List.mem_append.mp he' with he' | he'
    · exact only_updateIrsAssociatedImpus.ran hassoc e' he'
    · exact only_updateIrsImpiMappings.ran hmap e' he'
  · obtain ⟨rfl, hst⟩ := Ran.ret_iff.mp hothers
    obtain ⟨rfl, rfl⟩ := Prod.mk.inj hst
    exact ⟨pre, e, [], by simp, hpre, hdecides, by simp, fun _ => rfl⟩

end FirstOperation

end Homestead

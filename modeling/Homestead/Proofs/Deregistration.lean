import Homestead.Proofs.Setters
import Homestead.Proofs.TaskRuns

/-!
# `Homestead.Proofs.Deregistration`: a deregistration and a profile push at the same time

One client deletes the IRS for `D`, and another one that has read the same IRS puts it back with
a new document or new charging addresses. `keyMonitor` says what the two may do with the key `D`
of the store: the push sets the record, the deregistration deletes it once, and neither deletes
an associated IMPU there unless it has found one. Both keep it whatever the store answers.

`Recorded` is the invariant of the pool of the two. `deregistration_kept_iff` says from there
that the record is gone at the end exactly when the push set no record after the delete.
-/

set_option autoImplicit false

namespace Homestead

open CacheProg

/-- The two clients. -/
inductive Rival
  | push
  | deregistration
  deriving DecidableEq, Repr

/-- What the client does with the record. -/
def Rival.action : Rival → IrsImpuAction
  | .push => .setImpu
  | .deregistration => .deleteImpu

/-- What a client has done and seen under one key: whether a read found an associated IMPU or
nothing, the answer to its last `set_impu`, and whether its delete was answered. -/
structure KeyLog where
  foundAssociated : Bool := false
  foundNone : Bool := false
  lastSet : Option Status := none
  deleted : Bool := false

namespace KeyLog

variable (s : StoreId) (D : String)

/-- A read of `key`. An associated IMPU that says it is `D` counts wherever it was found. -/
def read (log : KeyLog) (key : String) : Option Impu → KeyLog
  | none => if key = D then { log with foundNone := true } else log
  | some (.associated a) =>
    if key = D ∨ a.impu = D then { log with foundAssociated := true } else log
  | some (.default _) => log

def step (log : KeyLog) : Event Call Call.Resp → KeyLog
  | ⟨.getImpu s' key, r⟩ => if s' = s then log.read D key (Prod.snd r) else log
  | ⟨.setImpu s' (.default d), r⟩ =>
    if s' = s ∧ d.impu = D then { log with lastSet := some r } else log
  | ⟨.deleteImpu s' (.default d), r⟩ =>
    if s' = s ∧ d.impu = D ∧ Status.isContention r = false then { log with deleted := true } else log
  | _ => log

/-- `log'` follows `log` by reads. -/
structure Reads (log log' : KeyLog) : Prop where
  lastSet : log'.lastSet = log.lastSet
  deleted : log'.deleted = log.deleted
  foundAssociated : log.foundAssociated = true → log'.foundAssociated = true
  foundNone : log.foundNone = true → log'.foundNone = true

theorem Reads.refl (log : KeyLog) : Reads log log := ⟨rfl, rfl, id, id⟩

theorem Reads.trans {log₁ log₂ log₃ : KeyLog} (h₁ : Reads log₁ log₂) (h₂ : Reads log₂ log₃) :
    Reads log₁ log₃ where
  lastSet := h₂.lastSet.trans h₁.lastSet
  deleted := h₂.deleted.trans h₁.deleted
  foundAssociated h := h₂.foundAssociated (h₁.foundAssociated h)
  foundNone h := h₂.foundNone (h₁.foundNone h)

theorem reads_read (log : KeyLog) (key : String) (found : Option Impu) :
    Reads log (log.read D key found) := by
  unfold read
  split
  · split
    · exact ⟨rfl, rfl, id, fun _ => rfl⟩
    · exact .refl log
  · split
    · exact ⟨rfl, rfl, fun _ => rfl, id⟩
    · exact .refl log
  · exact .refl log

/-- A read of the store. -/
theorem reads_getImpu (log : KeyLog) (key : String) (r : Status × Option Impu) :
    Reads log (log.step s D ⟨.getImpu s key, r⟩) := by
  show Reads log (if s = s then log.read D key r.2 else log)
  rw [if_pos rfl]
  exact reads_read D log key r.2

/-- The calls of a lookup only read, on whichever store they are. -/
theorem reads_isLookup {o : Call} (ho : o.IsLookup) (log : KeyLog) (r : o.Resp) :
    Reads log (log.step s D ⟨o, r⟩) := by
  cases o with
  | getImpu s' key =>
    show Reads log (if s' = s then log.read D key (Prod.snd r) else log)
    split
    · exact reads_read D log key _
    · exact .refl log
  | getImpiMapping s' impi => exact .refl log
  | time => exact .refl log
  | _ => exact ho.elim

end KeyLog

section Monitor

variable (s : StoreId) (D : String)

/-- The calls that may write or delete under the key. -/
def MayChange (rival : Rival) (log : KeyLog) : Call → Prop
  | .setImpu _ (.default _) => rival = .push
  | .deleteImpu _ (.default _) => rival = .deregistration ∧ log.deleted = false
  | .deleteImpu _ (.associated _) => log.foundAssociated = true
  | _ => False

def keyMonitor (rival : Rival) : Monitor Call Call.Resp KeyLog where
  permits log o := o.impuKey = some (s, D) → MayChange rival log o
  step := KeyLog.step s D

/-- A call with another key. -/
theorem keyMonitor_permits_of_ne {rival : Rival} {log : KeyLog} {o : Call}
    (h : o.impuKey ≠ some (s, D)) : (keyMonitor s D rival).permits log o :=
  fun heq => absurd heq h

/-- The client has not set or deleted the record. -/
def KeyLog.Fresh (log : KeyLog) : Prop := log.lastSet = none ∧ log.deleted = false

theorem KeyLog.Fresh.reads {log log' : KeyLog} (h : log.Fresh) (hr : log.Reads log') : log'.Fresh :=
  ⟨hr.lastSet.trans h.1, hr.deleted.trans h.2⟩

/-- The client goes on trying: a deregistration has not deleted the record. -/
def Going (rival : Rival) (log : KeyLog) : Prop := rival = .deregistration → log.deleted = false

/-- The client is through: a set that met no conflict, a delete or a read that found nothing, or
an associated IMPU in the way. -/
def Done (rival : Rival) (log : KeyLog) : Prop :=
  log.foundAssociated = true ∨
    (rival = .push ∧ ∃ r, log.lastSet = some r ∧ r ≠ .dataContention) ∨
    rival = .deregistration ∧ (log.deleted = true ∨ log.foundNone = true)

theorem Going.reads {rival : Rival} {log log' : KeyLog} (h : Going rival log) (hr : log.Reads log') :
    Going rival log' :=
  fun hrival => hr.deleted.trans (h hrival)

theorem Done.reads {rival : Rival} {log log' : KeyLog} (h : Done rival log) (hr : log.Reads log') :
    Done rival log' := by
  rcases h with hassoc | ⟨hrival, r, hlast, hr'⟩ | ⟨hrival, hdeleted | hnone⟩
  · exact .inl (hr.foundAssociated hassoc)
  · exact .inr (.inl ⟨hrival, r, hr.lastSet.trans hlast, hr'⟩)
  · exact .inr (.inr ⟨hrival, .inl (hr.deleted.trans hdeleted)⟩)
  · exact .inr (.inr ⟨hrival, .inr (hr.foundNone hnone)⟩)

end Monitor

section Keeps

variable {s : StoreId} {D : String} {rival : Rival} {log : KeyLog} {irs : Irs} {α : Type}

/-- A reading of the clock. -/
theorem keeps_time {Q : α → KeyLog → Prop} {k : Int → CacheProg α}
    (hk : ∀ now, (keyMonitor s D rival).Keeps Q log (k now)) :
    (keyMonitor s D rival).Keeps Q log (.call .time k) :=
  .call_to (keyMonitor_permits_of_ne s D (by simp [Call.impuKey])) (fun _ => rfl) hk

/-- A read of a record. -/
theorem keeps_getImpu {Q : α → KeyLog → Prop} {key : String}
    {k : Status × Option Impu → CacheProg α}
    (hk : ∀ r, (keyMonitor s D rival).Keeps Q (log.step s D ⟨.getImpu s key, r⟩) (k r)) :
    (keyMonitor s D rival).Keeps Q log (.call (.getImpu s key) k) :=
  .call fun r => ⟨keyMonitor_permits_of_ne s D (by simp [Call.impuKey]), hk r⟩

/-! ### The record of the default IMPU -/

/-- An IRS for `D` that is refreshed or not as the flag says. If it is not, it has not added `D`
to its associated IMPUs. -/
structure Tame (D : String) (flag : Bool) (irs : Irs) : Prop where
  defaultImpu : irs.defaultImpu = D
  refreshed : irs.refreshed = flag
  notAdded : flag = false → irs.associatedImpus[D]? ≠ some .added

variable {flag : Bool}

theorem Tame.merge (h : Tame D flag irs) (d : DefaultImpu) (now : Int) :
    Tame D flag (irs.updateFromImpuFromStore d now) where
  defaultImpu := h.defaultImpu
  refreshed := h.refreshed
  notAdded hfalse := by
    have hirs : irs.refreshed = false := h.refreshed.trans hfalse
    have hassoc : (irs.updateFromImpuFromStore d now).associatedImpus
        = irs.associatedImpus.mergeDataSets d.associatedImpus := by
      unfold Irs.updateFromImpuFromStore
      rw [hirs]
      rfl
    rw [hassoc, Data.getElem?_mergeDataSets]
    have hnot := h.notAdded hfalse
    cases hstate : irs.associatedImpus[D]? with
    | none => by_cases hmem : D ∈ d.associatedImpus <;> simp [hmem]
    | some state =>
      cases state with
      | added => exact absurd hstate hnot
      | unchanged => by_cases hmem : D ∈ d.associatedImpus <;> simp [hmem]
      | deleted => simp

/-- What a pass of the loop leaves. -/
def PassKept (D : String) (flag : Bool) (rival : Rival) (st : ImpuActionState) (log : KeyLog) :
    Prop :=
  Tame D flag st.irs ∧ st.impu = none ∧
    (st.status = .dataContention ∧ Going rival log ∨ st.status ≠ .dataContention ∧ Done rival log)

/-- The set or the delete of the record. -/
theorem keeps_apply {d : DefaultImpu} (hd : d.impu = D) (hgoing : Going rival log) :
    (keyMonitor s D rival).Keeps (fun status log' =>
      status = .dataContention ∧ Going rival log' ∨ status ≠ .dataContention ∧ Done rival log') log
      (rival.action.apply s d) := by
  cases rival with
  | push =>
    refine .call fun (r : Status) => ⟨fun _ => rfl, .ret ?_⟩
    show r = .dataContention ∧ Going .push (if s = s ∧ d.impu = D then _ else _) ∨
      r ≠ .dataContention ∧ Done .push (if s = s ∧ d.impu = D then _ else _)
    rw [if_pos ⟨rfl, hd⟩]
    by_cases hr : r = .dataContention
    · exact .inl ⟨hr, fun h => by cases h⟩
    · exact .inr ⟨hr, .inr (.inl ⟨rfl, r, rfl, hr⟩)⟩
  | deregistration =>
    refine .call fun (r : Status) => ⟨fun _ => ⟨rfl, hgoing rfl⟩, .ret ?_⟩
    show r = .dataContention ∧ Going .deregistration (if s = s ∧ d.impu = D ∧ _ then _ else _) ∨
      r ≠ .dataContention ∧ Done .deregistration (if s = s ∧ d.impu = D ∧ _ then _ else _)
    by_cases hr : r = .dataContention
    · rw [if_neg (by rw [hr]; simp [Status.isContention])]
      exact .inl ⟨hr, hgoing⟩
    · rw [if_pos ⟨rfl, hd, decide_eq_false hr⟩]
      exact .inr ⟨hr, .inr (.inr ⟨rfl, .inl rfl⟩)⟩

/-- The end of a pass: a clock reading, and the set or the delete. -/
theorem keeps_timedApply (h : Tame D flag irs) (cas : Nat) (store : Option StoreId)
    (hgoing : Going rival log) :
    (keyMonitor s D rival).Keeps (PassKept D flag rival) log
      (irs.getImpuFromImpu cas store >>= fun impu => rival.action.apply s impu >>= fun status =>
        pure { status := status, irs := irs, impu := none }) := by
  refine keeps_time fun now => ?_
  refine (keeps_apply (d := irs.createImpu cas store now) h.defaultImpu hgoing).bind ?_
  intro status log' hlog'
  exact .ret ⟨h, rfl, hlog'⟩

/-- The pass that reads the record first. -/
theorem keeps_rereadPass (h : Tame D flag irs) (hgoing : Going rival log) :
    (keyMonitor s D rival).Keeps (PassKept D flag rival) log (rereadPass rival.action s irs) := by
  refine keeps_getImpu fun r => ?_
  have hgoing' := hgoing.reads (KeyLog.reads_getImpu s D log irs.defaultImpu r)
  obtain ⟨status, _ | d | a⟩ := r
  · cases rival with
    | push => exact keeps_timedApply h 0 none hgoing'
    | deregistration =>
      -- Nothing to delete counts as deleted.
      refine .ret ⟨h, rfl, .inr ⟨by simp, .inr (.inr ⟨rfl, .inr ?_⟩)⟩⟩
      show (if s = s then (if irs.defaultImpu = D then _ else _) else _ : KeyLog).foundNone = true
      rw [if_pos rfl, if_pos h.defaultImpu]
  · show (keyMonitor s D rival).Keeps _ _ (irs.mergeFromStore d >>= _)
    unfold Irs.mergeFromStore
    split
    · exact keeps_timedApply (h.merge d 0) d.cas d.store hgoing'
    · exact keeps_time fun now => keeps_timedApply (h.merge d now) d.cas d.store hgoing'
  · show (keyMonitor s D rival).Keeps _ _ (if irs.refreshed then _ else _)
    split
    · exact keeps_timedApply h a.cas a.store hgoing'
    · refine .ret ⟨h, rfl, .inr ⟨by simp, .inl ?_⟩⟩
      show (if s = s then (if irs.defaultImpu = D ∨ a.impu = D then _ else _) else _ :
        KeyLog).foundAssociated = true
      rw [if_pos rfl, if_pos (.inl h.defaultImpu)]

/-- `perform_irs_impu_action`: when it ends, the client is through. -/
theorem keeps_performIrsImpuAction (h : Tame D flag irs) (hgoing : Going rival log) :
    (keyMonitor s D rival).Keeps (fun r log' => Tame D flag r.2 ∧ Done rival log') log
      (performIrsImpuAction rival.action irs s) := by
  have hloop : ∀ impu, (∀ d, impu = some d → d.impu = D) →
      (keyMonitor s D rival).Keeps (fun r log' => Tame D flag r.2 ∧ Done rival log') log
        (Prog.loop (impuActionPass rival.action s) (fun st => st.status.isContention)
          { status := .ok, irs := irs, impu := impu } >>= fun st => pure (st.status, st.irs)) := by
    intro impu himpu
    refine .bind (Monitor.Keeps.loop (Q := fun st log' => Tame D flag st.irs ∧ Done rival log')
      (fun st log' => Tame D flag st.irs ∧ (∀ d, st.impu = some d → d.impu = D) ∧
        Going rival log') ?_ ⟨h, himpu, hgoing⟩) fun st log' hdone => .ret hdone
    rintro st log₁ ⟨htame, hrecord, hgoing₁⟩
    have hpass : (keyMonitor s D rival).Keeps (PassKept D flag rival) log₁
        (impuActionPass rival.action s st) := by
      unfold impuActionPass
      cases hst : st.impu with
      | none => exact keeps_rereadPass htame hgoing₁
      | some d =>
        exact (keeps_apply (hrecord d hst) hgoing₁).bind fun status log₂ hlog₂ =>
          .ret ⟨htame, rfl, hlog₂⟩
    refine hpass.weaken fun st' log₂ hkept => ?_
    obtain ⟨htame', himpu', ⟨hcontended, hgoing₂⟩ | ⟨hne, hdone⟩⟩ := hkept
    · -- Contention leads to another pass, and anything else ends the loop.
      rw [hcontended]
      exact ⟨htame', by rw [himpu']; simp, hgoing₂⟩
    · rw [show st'.status.isContention = false from decide_eq_false hne]
      exact ⟨htame', hdone⟩
  show (keyMonitor s D rival).Keeps _ log (irs.getImpuForStore s >>= _)
  unfold Irs.getImpuForStore
  split
  · refine keeps_time fun now => hloop _ fun d hd => ?_
    rw [← Option.some.inj hd]
    exact h.defaultImpu
  · exact hloop none (by simp)

/-! ### The later operations -/

/-- An associated IMPU is deleted only when it was found. -/
theorem keeps_removeAssociatedImpu (impu : String) (status : Status) :
    (keyMonitor s D rival).Keeps (fun _ log' => log.Reads log') log
      (removeAssociatedImpu irs s impu status) := by
  refine Monitor.Keeps.loop (fun _ log' => log.Reads log') ?_ (KeyLog.Reads.refl log)
  intro status log₁ hlog₁
  suffices hpass : (keyMonitor s D rival).Keeps (fun _ log' => log.Reads log') log₁
      (removeAssociatedImpuPass irs s impu status) from
    hpass.weaken fun _ _ hlog' => by split <;> exact hlog'
  refine keeps_getImpu fun r => ?_
  have hlog₂ := hlog₁.trans (KeyLog.reads_getImpu s D log₁ impu r)
  obtain ⟨status', _ | d | a⟩ := r
  · exact .ret hlog₂
  · exact .ret hlog₂
  · show (keyMonitor s D rival).Keeps _ _ (if a.defaultImpu = irs.defaultImpu then _ else _)
    split
    · refine .call fun _ => ⟨fun hkey => ?_, .ret hlog₂⟩
      have ha : a.impu = D := (Prod.mk.inj (Option.some.inj hkey)).2
      show (if s = s then (if impu = D ∨ a.impu = D then _ else _) else _ :
        KeyLog).foundAssociated = true
      rw [if_pos rfl, if_pos (.inr ha)]
    · exact .ret hlog₂

/-- Another associated IMPU is written. -/
theorem keeps_writeAssociatedImpu {impu : String} (himpu : impu ≠ D) (status : Status) :
    (keyMonitor s D rival).Keeps (fun _ log' => log' = log) log
      (writeAssociatedImpu irs s impu status) := by
  refine keeps_time fun now => .call fun _ => ⟨fun hkey => ?_, .ret rfl⟩
  exact absurd (Prod.mk.inj (Option.some.inj hkey)).2 himpu

/-- `update_irs_associated_impus` of an IRS that writes no associated IMPU under the key. -/
theorem keeps_updateIrsAssociatedImpus (hadded : irs.associatedImpus[D]? ≠ some .added)
    (hunchanged : irs.refreshed = true → irs.associatedImpus[D]? ≠ some .unchanged) :
    (keyMonitor s D rival).Keeps (fun _ log' => log.Reads log') log
      (updateIrsAssociatedImpus irs s) := by
  have hwrites : ∀ state, irs.associatedImpus[D]? ≠ some state → ∀ status log₁, log.Reads log₁ →
      (keyMonitor s D rival).Keeps (fun _ log' => log.Reads log') log₁
        (Prog.forEach (irs.impusIn state) (writeAssociatedImpu irs s) status) := by
    intro state hstate status log₁ hlog₁
    refine Monitor.Keeps.forEach_mem (fun _ log' => log.Reads log')
      (fun impu hmem status log₂ hlog₂ => ?_) hlog₁
    -- `D` is not in the list, so its record is not written.
    have hne : impu ≠ D := by
      rintro rfl
      exact hstate (Data.mem_elementsInState.mp hmem)
    refine (keeps_writeAssociatedImpu hne status).weaken fun _ log₃ heq => ?_
    rw [heq]
    exact hlog₂
  rw [updateIrsAssociatedImpus_eq]
  refine (Monitor.Keeps.forEach (fun _ log' => log.Reads log') (fun impu status log₁ hlog₁ =>
    (keeps_removeAssociatedImpu impu status).weaken fun _ _ h => hlog₁.trans h)
    (KeyLog.Reads.refl log)).bind fun status log₁ hlog₁ => ?_
  have hrefresh : (keyMonitor s D rival).Keeps (fun _ log' => log.Reads log') log₁
      (if irs.refreshed then
        Prog.forEach (irs.impusIn .unchanged) (writeAssociatedImpu irs s) status
      else pure status) := by
    split
    · rename_i hrefreshed
      exact hwrites .unchanged (hunchanged hrefreshed) status log₁ hlog₁
    · exact .ret hlog₁
  exact hrefresh.bind fun status log₂ hlog₂ => hwrites .added hadded status log₂ hlog₂

theorem keeps_updateIrsImpiMappings :
    (keyMonitor s D rival).Keeps (fun _ log' => log' = log) log (updateIrsImpiMappings irs s) := by
  refine .of_only only_mappings fun o ho => ?_
  cases o with
  | getImpiMapping s' impi =>
    exact ⟨keyMonitor_permits_of_ne s D (by simp [Call.impuKey]), fun _ => rfl⟩
  | setImpiMapping s' m =>
    exact ⟨keyMonitor_permits_of_ne s D (by simp [Call.impuKey]), fun _ => rfl⟩
  | deleteImpiMapping s' m =>
    exact ⟨keyMonitor_permits_of_ne s D (by simp [Call.impuKey]), fun _ => rfl⟩
  | time => exact ⟨keyMonitor_permits_of_ne s D (by simp [Call.impuKey]), fun _ => rfl⟩
  | _ => exact ho.elim

/-! ### The two clients -/

/-- The put of an IRS that is not refreshed. -/
theorem keeps_putIrsAction (h : Tame D false irs) (hexisting : irs.existing = true) :
    (keyMonitor s D .push).Keeps (fun _ log' => Done .push log') log (putIrsAction irs s) := by
  unfold putIrsAction putIrsImpu
  rw [if_pos hexisting]
  have hgoing : Going .push log := fun hrival => by cases hrival
  refine (keeps_performIrsImpuAction h hgoing).bind ?_
  -- The other two operations write other keys, and what the log has recorded stays.
  rintro ⟨status, irs'⟩ log₁ ⟨htame, hdone⟩
  show (keyMonitor s D .push).Keeps _ log₁ (if status = .ok then _ else _)
  split
  · have hunchanged : irs'.refreshed = true → irs'.associatedImpus[D]? ≠ some .unchanged := by
      intro hrefreshed
      rw [htame.refreshed] at hrefreshed
      cases hrefreshed
    refine (keeps_updateIrsAssociatedImpus (htame.notAdded rfl) hunchanged).bind ?_
    intro _ log₂ hlog₂
    refine keeps_updateIrsImpiMappings.bind fun _ log₃ hlog₃ => .ret ?_
    rw [hlog₃]
    exact hdone.reads hlog₂
  · exact .ret hdone

/-- The delete of an IRS. -/
theorem keeps_deleteIrsAction (hD : irs.defaultImpu = D) (hlog : log.deleted = false) :
    (keyMonitor s D .deregistration).Keeps (fun _ log' => Done .deregistration log') log
      (deleteIrsAction irs s) := by
  have htame : Tame D true irs.markAsRefreshed := ⟨hD, rfl, fun hfalse => by cases hfalse⟩
  have hgoing : Going .deregistration log := fun _ => hlog
  unfold deleteIrsAction deleteIrsImpu
  refine (keeps_performIrsImpuAction htame hgoing).bind ?_
  rintro ⟨status, irs'⟩ log₁ ⟨-, hdone⟩
  show (keyMonitor s D .deregistration).Keeps _ log₁ (if status = .ok then _ else _)
  split
  · -- Every associated IMPU is marked as deleted, so none is written.
    have hdeleted : ∀ state, state ≠ .deleted →
        irs'.deleteAssocImpus.associatedImpus[D]? ≠ some state := by
      intro state hstate heq
      have hmem : D ∈ irs'.associatedImpus.deleteTracked.elementsInState state :=
        Data.mem_elementsInState.mpr heq
      rw [Data.elementsInState_deleteTracked hstate] at hmem
      cases hmem
    refine (keeps_updateIrsAssociatedImpus (hdeleted .added (by decide))
      fun _ => hdeleted .unchanged (by decide)).bind fun status log₂ hlog₂ => ?_
    show (keyMonitor s D .deregistration).Keeps _ log₂ (if status = .ok then _ else _)
    split
    · refine keeps_updateIrsImpiMappings.bind fun _ log₃ hlog₃ => .ret ?_
      rw [hlog₃]
      exact hdone.reads hlog₂
    · exact .ret (hdone.reads hlog₂)
  · exact .ret hdone

end Keeps

/-! ### The lookups -/

/-- The IRS was built from a record. -/
def Irs.Built (irs : Irs) : Prop := ∃ d now, irs = .ofDefaultImpu d now

theorem ran_getImplicitRegistrationSetForImpu_built {cache : MemcachedCache} {impu : String}
    {status : Status} {irs : Irs} {hs : History}
    (h : Ran (cache.getImplicitRegistrationSetForImpu impu) hs (status, some irs)) : irs.Built := by
  obtain ⟨found, h₁, h₂, rfl, -, hrest⟩ := Ran.bind_inv h
  obtain ⟨_ | _ | _ | _, _ | d⟩ := found
  case ok.some =>
    obtain ⟨now, h₃, rfl, hret⟩ := Ran.call_iff.mp hrest
    obtain ⟨-, hirs⟩ := Ran.ret_iff.mp hret
    obtain ⟨-, hirs⟩ := Prod.mk.inj hirs
    exact ⟨d, now, Option.some.inj hirs⟩
  all_goals
    obtain ⟨-, hirs⟩ := Ran.ret_iff.mp hrest
    cases (Prod.mk.inj hirs).2

theorem ran_impusLoop_built {cache : MemcachedCache} {impus : List String} {result : List Irs}
    {r : Status × List Irs} {hs : History} (hresult : ∀ irs ∈ result, irs.Built)
    (h : Ran (BaseHssCache.impusLoop cache.getImplicitRegistrationSetForImpu impus result) hs r) :
    ∀ irs ∈ r.2, irs.Built := by
  induction impus generalizing hs with
  | nil =>
    obtain ⟨-, rfl⟩ := Ran.ret_iff.mp h
    exact hresult
  | cons impu impus ih =>
    obtain ⟨inner, h₁, h₂, rfl, hinner, hrest⟩ := Ran.bind_inv h
    obtain ⟨_ | _ | _ | _, _ | irs⟩ := inner
    case ok.some =>
      obtain ⟨-, rfl⟩ := Ran.ret_iff.mp hrest
      intro irs' hirs'
      rcases List.mem_append.mp hirs' with hirs' | hirs'
      · exact hresult irs' hirs'
      · rw [List.mem_singleton.mp hirs']
        exact ran_getImplicitRegistrationSetForImpu_built hinner
    case notFound.none | notFound.some => exact ih hrest
    all_goals
      obtain ⟨-, rfl⟩ := Ran.ret_iff.mp hrest
      exact hresult

/-- Every IRS of a lookup was built from a record. -/
theorem ran_lookup_built {cache : MemcachedCache} {l : Lookup} {r : Status × List Irs}
    {hs : History} (h : Ran (cache.lookup l) hs r) : ∀ irs ∈ r.2, irs.Built := by
  cases l with
  | byImpu impu =>
    obtain ⟨⟨status, found⟩, h₁, h₂, rfl, hfound, hret⟩ := Ran.bind_inv h
    obtain ⟨-, rfl⟩ := Ran.ret_iff.mp hret
    intro irs hirs
    obtain rfl : found = some irs := Option.mem_toList.mp hirs
    exact ran_getImplicitRegistrationSetForImpu_built hfound
  | byImpi impi =>
    obtain ⟨impus, h₁, h₂, rfl, -, hrest⟩ := Ran.bind_inv h
    have hbranch : Ran (if impus.1 = .ok then _ else _) h₂ r := hrest
    split at hbranch
    · obtain ⟨found, h₃, h₄, rfl, hloop, hret⟩ := Ran.bind_inv hbranch
      obtain ⟨-, rfl⟩ := Ran.ret_iff.mp hret
      intro irs hirs
      unfold BaseHssCache.clearOnError at hirs
      split at hirs
      · exact ran_impusLoop_built (by simp) hloop irs hirs
      · cases hirs
    · obtain ⟨-, rfl⟩ := Ran.ret_iff.mp hbranch
      simp

theorem only_lookup (cache : MemcachedCache) (l : Lookup) : Only Call.IsLookup (cache.lookup l) := by
  cases l with
  | byImpu impu => exact (only_getImplicitRegistrationSetForImpu cache impu).bind fun _ => .ret _
  | byImpi impi => exact only_getImplicitRegistrationSetsForImpi cache impi []

section Clients

variable {s : StoreId} {D : String} {rival : Rival} {cache : MemcachedCache}

theorem keeps_lookup (l : Lookup) :
    (keyMonitor s D rival).Keeps (fun r log => log.Fresh ∧ ∀ irs ∈ r.2, irs.Built) {}
      (cache.lookup l) := by
  refine (Monitor.Keeps.of_only_inv (only_lookup cache l) (I := KeyLog.Fresh) ?_ ⟨rfl, rfl⟩).and_ran
    fun hs r hran => ran_lookup_built hran
  refine fun log o ho hfresh => ⟨keyMonitor_permits_of_ne s D ?_, fun r => ?_⟩
  · rw [ho.isRead.keys.1]
    simp
  · exact hfresh.reads (KeyLog.reads_isLookup s D ho log r)

/-- What a client leaves: it found nothing and changed nothing, or it is through. -/
def Left (rival : Rival) (r : Option (Status × Irs)) (log : KeyLog) : Prop :=
  r = none ∧ log.Fresh ∨ r.isSome = true ∧ Done rival log

/-- With documents for `D`, the setters of a push keep an IRS tame. -/
theorem tame_pprSetters {px : XmlParser} {xml : Option String}
    {addresses : Option ChargingAddresses} (hxml : KeepsDefault (pprSetters xml addresses) px D)
    {irs : Irs} (h : Tame D false irs ∧ irs.existing = true) :
    Tame D false (irs.applyAll px (pprSetters xml addresses)) ∧
      (irs.applyAll px (pprSetters xml addresses)).existing = true := by
  refine applyAll_induction (P := fun irs => Tame D false irs ∧ irs.existing = true)
    (fun setter hmem irs h => ?_) h
  obtain ⟨⟨hD, hrefreshed, hadded⟩, hexisting⟩ := h
  cases setter with
  | setImsSubXml xml' =>
    have hdefault : (px.getPublicAndDefaultIds xml' "").2 = D := hxml xml' hmem
    refine ⟨⟨hdefault, hrefreshed, fun _ => ?_⟩, hexisting⟩
    show (Data.setElements _ irs.associatedImpus (px.getPublicAndDefaultIds xml' "").2)[D]? ≠ _
    -- The default identity is the one that `set_elements` ignores.
    rw [Data.getElem?_setElements, hdefault]
    split
    · rw [if_neg fun h => h.1 rfl]
      exact hadded rfl
    · simp
  | setChargingAddresses addresses' => exact ⟨⟨hD, hrefreshed, hadded⟩, hexisting⟩
  | setRegState state => simp [pprSetters] at hmem
  | addAssociatedImpi impi => simp [pprSetters] at hmem
  | setTtl ttl => simp [pprSetters] at hmem

theorem tame_built {irs : Irs} (hbuilt : irs.Built) (hD : irs.defaultImpu = D) :
    Tame D false irs ∧ irs.existing = true := by
  obtain ⟨d, now, rfl⟩ := hbuilt
  refine ⟨⟨hD, rfl, fun _ => ?_⟩, rfl⟩
  show (Data.ofStored d.associatedImpus)[D]? ≠ some .added
  rw [Data.getElem?_ofStored]
  split <;> simp

/-- The push. -/
theorem keeps_push {px : XmlParser} {xml : Option String} {addresses : Option ChargingAddresses}
    (hxml : KeepsDefault (pprSetters xml addresses) px D) (l : Lookup) :
    (keyMonitor cache.localStore D .push).Keeps (Left .push) {}
      ((updateClient l (pprSetters xml addresses)).run px cache D) := by
  unfold Client.run
  refine (keeps_lookup l).bind ?_
  rintro ⟨status, irss⟩ log ⟨hfresh, hbuilt⟩
  cases htarget : (updateClient l (pprSetters xml addresses)).target px D (status, irss) with
  | none => exact .ret (.inl ⟨rfl, hfresh⟩)
  | some irs =>
    -- The IRS is one that was found, with the setters on it.
    have htame : Tame D false irs ∧ irs.existing = true := by
      cases status with
      | ok =>
        obtain ⟨irs₀, hfind, hset⟩ := Option.bind_eq_some_iff.mp htarget
        have hD : irs₀.defaultImpu = D := by simpa using List.find?_some hfind
        rw [← Option.some.inj hset]
        exact tame_pprSetters hxml (tame_built (hbuilt irs₀ (List.mem_of_find?_eq_some hfind)) hD)
      | notFound => cases htarget
      | dataContention => cases htarget
      | error => cases htarget
    exact (keeps_putIrsAction htame.1 htame.2).bind fun _ log' hdone => .ret (.inr ⟨rfl, hdone⟩)

/-- The deregistration. -/
theorem keeps_deregister (l : Lookup) :
    (keyMonitor cache.localStore D .deregistration).Keeps (Left .deregistration) {}
      (cache.deregister D l) := by
  refine (keeps_lookup l).bind ?_
  rintro found log ⟨hfresh, -⟩
  split
  · rename_i irs hfind
    have hD : irs.defaultImpu = D := by simpa using List.find?_some hfind
    exact (keeps_deleteIrsAction hD hfresh.2).bind fun _ log' hdone => .ret (.inr ⟨rfl, hdone⟩)
  · exact .ret (.inl ⟨rfl, hfresh⟩)

end Clients

/-! ### The pool of the two -/

/-- The calls of the two clients in the order they were made. -/
abbrev RivalTrace := List (Rival × Event Call Call.Resp)

section Pool

variable (s : StoreId) (D : String)

/-- The deregistration deletes the record. -/
def Deletes (e : Rival × Event Call Call.Resp) : Prop :=
  e.1 = .deregistration ∧ ∃ d : DefaultImpu, e.2.1 = .deleteImpu s (.default d) ∧ d.impu = D

/-- The push sets the record. -/
def Sets (e : Rival × Event Call Call.Resp) : Prop :=
  e.1 = .push ∧ ∃ d : DefaultImpu, e.2.1 = .setImpu s (.default d) ∧ d.impu = D

/-- The push makes no set of the record after the delete. -/
def SetsFirst (tr : RivalTrace) : Prop := tr.Pairwise fun e e' => Deletes s D e → ¬ Sets s D e'

/-- What the client has done and seen under the key. -/
def logOf (rival : Rival) (tr : RivalTrace) : KeyLog :=
  (keyMonitor s D rival).after {} (Pool.histOf rival tr)

/-- What is known of the store and of the calls so far. -/
structure Recorded (w : World) (tr : RivalTrace) : Prop where
  isDefault : ∀ c x, (w.stores s).impus.cells D = some (c, x) → ∃ d, x = .decoded (.default d)
  unseen : ∀ rival, (logOf s D rival tr).foundAssociated = false
  before : (∀ e ∈ tr, ¬ Deletes s D e) → (w.stores s).impus.cells D ≠ none ∧
    ∀ rival, (logOf s D rival tr).foundNone = false
  deleted : (logOf s D .deregistration tr).deleted = true ↔ ∃ e ∈ tr, Deletes s D e
  gone : (∃ e ∈ tr, Deletes s D e) → SetsFirst s D tr → (w.stores s).impus.cells D = none
  ghost : ¬ SetsFirst s D tr → (logOf s D .push tr).lastSet = some .ok →
    (w.stores s).impus.cells D ≠ none
  unset : (logOf s D .push tr).lastSet = none → ∀ e ∈ tr, ¬ Sets s D e
  answered : ∀ r, (logOf s D .push tr).lastSet = some r → r = .ok ∨ r = .dataContention

variable {s D}

theorem logOf_snoc_self (rival : Rival) (tr : RivalTrace) (e : Event Call Call.Resp) :
    logOf s D rival (tr ++ [(rival, e)]) = (logOf s D rival tr).step s D e := by
  unfold logOf
  rw [Pool.histOf_snoc_self, Monitor.after_append]
  rfl

theorem logOf_snoc_ne {rival rival' : Rival} (h : rival' ≠ rival) (tr : RivalTrace)
    (e : Event Call Call.Resp) : logOf s D rival (tr ++ [(rival', e)]) = logOf s D rival tr := by
  unfold logOf
  rw [Pool.histOf_snoc_ne h]

theorem setsFirst_snoc {tr : RivalTrace} {e : Rival × Event Call Call.Resp} :
    SetsFirst s D (tr ++ [e]) ↔
      SetsFirst s D tr ∧ ((∃ e' ∈ tr, Deletes s D e') → ¬ Sets s D e) := by
  unfold SetsFirst
  rw [List.pairwise_append]
  simp only [List.pairwise_singleton, List.mem_singleton, forall_eq, true_and]
  constructor
  · rintro ⟨htr, hlast⟩
    exact ⟨htr, fun ⟨e', he', hdeletes⟩ => hlast e' he' hdeletes⟩
  · rintro ⟨htr, hlast⟩
    exact ⟨htr, fun e' he' hdeletes => hlast ⟨e', he', hdeletes⟩⟩

/-- A call that does not delete the record leaves what was deleted before. -/
theorem exists_deletes_snoc {tr : RivalTrace} {e : Rival × Event Call Call.Resp}
    (h : ¬ Deletes s D e) : (∃ e' ∈ tr ++ [e], Deletes s D e') ↔ ∃ e' ∈ tr, Deletes s D e' := by
  simp [List.mem_append, or_and_right, exists_or, h]

/-- A call that does not set the record leaves that none was set before. -/
theorem not_sets_snoc {tr : RivalTrace} {e : Rival × Event Call Call.Resp}
    (htr : ∀ e' ∈ tr, ¬ Sets s D e') (h : ¬ Sets s D e) : ∀ e' ∈ tr ++ [e], ¬ Sets s D e' := by
  intro e' he'
  rcases List.mem_append.mp he' with he' | he'
  · exact htr e' he'
  · rw [List.mem_singleton.mp he']
    exact h

theorem setsFirst_of_not_deletes {tr : RivalTrace} (h : ∀ e ∈ tr, ¬ Deletes s D e) :
    SetsFirst s D tr :=
  List.pairwise_of_forall_mem_list fun e he _ _ hdeletes => absurd hdeletes (h e he)

/-- A read answered by the store, when the entry under the key is a default IMPU. -/
theorem read_getImpu {st : ImpuStore}
    (hdefault : ∀ c x, st.impus.cells D = some (c, x) → ∃ d, x = .decoded (.default d))
    (log : KeyLog) (key : String) :
    log.read D key (st.getImpu s key).2 = log ∨
      st.impus.cells D = none ∧
        log.read D key (st.getImpu s key).2 = { log with foundNone := true } := by
  -- Only a read of `D` itself can find that the record is gone.
  by_cases hkey : key = D
  · subst hkey
    cases hcell : st.impus.cells key with
    | none =>
      rw [ImpuStore.getImpu_of_none hcell]
      exact .inr ⟨rfl, if_pos rfl⟩
    | some entry =>
      obtain ⟨c, x⟩ := entry
      obtain ⟨d, rfl⟩ := hdefault c x hcell
      rw [ImpuStore.getImpu_of_decoded hcell]
      exact .inl rfl
  · left
    cases hcell : st.impus.cells key with
    | none =>
      rw [ImpuStore.getImpu_of_none hcell]
      exact if_neg hkey
    | some entry =>
      obtain ⟨c, x⟩ := entry
      cases x with
      | corrupt =>
        rw [ImpuStore.getImpu_of_corrupt hcell]
        exact if_neg hkey
      | decoded data =>
        rw [ImpuStore.getImpu_of_decoded hcell]
        cases data with
        | default d => rfl
        | associated defaultImpu expiry => exact if_neg (or_self_iff.not.mpr hkey)

/-- A call with another key, answered by the store: all that the log can record is that nothing
is there. -/
theorem step_of_ne {w : World} {o : Call} (hkey : o.impuKey ≠ some (s, D))
    (hdefault : ∀ c x, (w.stores s).impus.cells D = some (c, x) → ∃ d, x = .decoded (.default d))
    (log : KeyLog) :
    log.step s D ⟨o, (serve o w).1⟩ = log ∨
      (w.stores s).impus.cells D = none ∧
        log.step s D ⟨o, (serve o w).1⟩ = { log with foundNone := true } := by
  cases o with
  | getImpu s' key =>
    by_cases hs : s' = s
    · subst hs
      have hread : log.step s' D ⟨.getImpu s' key, (serve (.getImpu s' key) w).1⟩
          = log.read D key ((w.stores s').getImpu s' key).2 := if_pos rfl
      rw [hread]
      exact read_getImpu hdefault log key
    · exact .inl (if_neg hs)
  | setImpu s' impu =>
    cases impu with
    | default d =>
      refine .inl (if_neg ?_)
      rintro ⟨rfl, rfl⟩
      exact hkey rfl
    | associated a => exact .inl rfl
  | deleteImpu s' impu =>
    cases impu with
    | default d =>
      refine .inl (if_neg ?_)
      rintro ⟨rfl, rfl, -⟩
      exact hkey rfl
    | associated a => exact .inl rfl
  | _ => exact .inl rfl

/-- A call of neither kind. -/
theorem not_changes_of_ne {rival : Rival} {o : Call} {r : o.Resp} (hkey : o.impuKey ≠ some (s, D)) :
    ¬ Deletes s D (rival, ⟨o, r⟩) ∧ ¬ Sets s D (rival, ⟨o, r⟩) := by
  constructor
  · rintro ⟨-, d, rfl, rfl⟩
    exact hkey rfl
  · rintro ⟨-, d, rfl, rfl⟩
    exact hkey rfl

/-- A call with another key keeps the invariant. -/
theorem Recorded.other {w : World} {tr : RivalTrace} (h : Recorded s D w tr) (rival : Rival)
    {o : Call} (hkey : o.impuKey ≠ some (s, D)) :
    Recorded s D (serve o w).2 (tr ++ [(rival, ⟨o, (serve o w).1⟩)]) := by
  have hcells := serve_impus_cells (s := s) (k := D) w hkey
  have hneither : ¬ Deletes s D (rival, ⟨o, (serve o w).1⟩) ∧
      ¬ Sets s D (rival, ⟨o, (serve o w).1⟩) := not_changes_of_ne hkey
  obtain ⟨hnodelete, hnoset⟩ := hneither
  -- The call is on another key, so a log changes at most by a read that found no record.
  have hlog : ∀ rival', logOf s D rival' (tr ++ [(rival, ⟨o, (serve o w).1⟩)])
        = logOf s D rival' tr ∨ (w.stores s).impus.cells D = none ∧
      logOf s D rival' (tr ++ [(rival, ⟨o, (serve o w).1⟩)])
        = { logOf s D rival' tr with foundNone := true } := by
    intro rival'
    by_cases hrival : rival' = rival
    · subst hrival
      rw [logOf_snoc_self]
      exact step_of_ne hkey h.isDefault _
    · exact .inl (logOf_snoc_ne (Ne.symm hrival) tr _)
  have hlastSet : ∀ rival', (logOf s D rival' (tr ++ [(rival, ⟨o, (serve o w).1⟩)])).lastSet
      = (logOf s D rival' tr).lastSet := fun rival' => by
    rcases hlog rival' with heq | ⟨-, heq⟩ <;> rw [heq]
  have hdeleted : ∀ rival', (logOf s D rival' (tr ++ [(rival, ⟨o, (serve o w).1⟩)])).deleted
      = (logOf s D rival' tr).deleted := fun rival' => by
    rcases hlog rival' with heq | ⟨-, heq⟩ <;> rw [heq]
  have hdeletes := @exists_deletes_snoc s D tr _ hnodelete
  have hsetsFirst : SetsFirst s D (tr ++ [(rival, ⟨o, (serve o w).1⟩)]) ↔ SetsFirst s D tr := by
    rw [setsFirst_snoc]
    exact and_iff_left fun _ => hnoset
  refine ⟨?_, fun rival' => ?_, fun hno => ?_, ?_, ?_, ?_, ?_, ?_⟩
  · rw [hcells]
    exact h.isDefault
  · rcases hlog rival' with heq | ⟨-, heq⟩ <;> rw [heq] <;> exact h.unseen rival'
  · -- While the record is there, no read of it can find nothing.
    obtain ⟨hsome, hfound⟩ := h.before fun e he => hno e (List.mem_append_left _ he)
    rw [hcells]
    refine ⟨hsome, fun rival' => ?_⟩
    rcases hlog rival' with heq | ⟨hnone, -⟩
    · rw [heq]
      exact hfound rival'
    · exact absurd hnone hsome
  · rw [hdeleted, hdeletes]
    exact h.deleted
  · rw [hdeletes, hsetsFirst, hcells]
    exact h.gone
  · rw [hsetsFirst, hlastSet, hcells]
    exact h.ghost
  · rw [hlastSet]
    exact fun hnone => not_sets_snoc (h.unset hnone) hnoset
  · rw [hlastSet]
    exact h.answered

/-- A set of the record by the push. It writes the record, or it meets a conflict and writes
nothing. -/
theorem Recorded.set {w : World} {tr : RivalTrace} (h : Recorded s D w tr) {d : DefaultImpu}
    (hd : d.impu = D) : Recorded s D (serve (.setImpu s (.default d)) w).2
      (tr ++ [(.push, ⟨.setImpu s (.default d), (serve (.setImpu s (.default d)) w).1⟩)]) := by
  -- A set is either made, and leaves a default record, or refused, and changes nothing.
  have hanswer : (serve (.setImpu s (.default d)) w).1 = Status.ok ∧
      (∃ c, ((serve (.setImpu s (.default d)) w).2.stores s).impus.cells D
        = some (c, .decoded (.default d.toData))) ∨
      (serve (.setImpu s (.default d)) w).1 = Status.dataContention ∧
        (serve (.setImpu s (.default d)) w).2 = w := by
    rcases serve_setImpu_cases w s (.default d) with ⟨-, hok, hworld⟩ | ⟨-, hcont, hworld⟩
    · refine .inl ⟨hok, (w.stores s).impus.issued + 1, ?_⟩
      subst hd
      rw [hworld, World.setImpus_stores_self]
      exact CasTable.put_cells_self _ _ _
    · exact .inr ⟨hcont, hworld⟩
  generalize (serve (.setImpu s (.default d)) w).1 = r at hanswer ⊢
  generalize (serve (.setImpu s (.default d)) w).2 = w' at hanswer ⊢
  have hpush : logOf s D .push (tr ++ [(.push, ⟨.setImpu s (.default d), r⟩)])
      = { logOf s D .push tr with lastSet := some r } := by
    rw [logOf_snoc_self]
    exact if_pos ⟨rfl, hd⟩
  have hother : logOf s D .deregistration (tr ++ [(.push, ⟨.setImpu s (.default d), r⟩)])
      = logOf s D .deregistration tr := logOf_snoc_ne (by decide) tr _
  -- The event is a set of the push, so only its log and the sets change.
  have hsets : Sets s D (.push, ⟨.setImpu s (.default d), r⟩) := ⟨rfl, d, rfl, hd⟩
  have hnodelete : ¬ Deletes s D (.push, ⟨.setImpu s (.default d), r⟩) := by
    rintro ⟨hrival, -⟩
    cases hrival
  have hdeletes := @exists_deletes_snoc s D tr _ hnodelete
  have hfound : ∀ rival, (logOf s D rival
      (tr ++ [(.push, ⟨.setImpu s (.default d), r⟩)])).foundNone = (logOf s D rival tr).foundNone := by
    intro rival
    cases rival with
    | push => rw [hpush]
    | deregistration => rw [hother]
  refine ⟨?_, fun rival => ?_, fun hno => ?_, ?_, ?_, ?_, ?_, ?_⟩
  · rcases hanswer with ⟨-, c, hcell⟩ | ⟨-, rfl⟩
    · rintro c' x hx
      rw [hcell] at hx
      obtain ⟨-, rfl⟩ := Prod.mk.inj (Option.some.inj hx)
      exact ⟨_, rfl⟩
    · exact h.isDefault
  · cases rival with
    | push =>
      rw [hpush]
      exact h.unseen .push
    | deregistration =>
      rw [hother]
      exact h.unseen .deregistration
  · obtain ⟨hsome, hnone⟩ := h.before fun e he => hno e (List.mem_append_left _ he)
    refine ⟨?_, fun rival => (hfound rival).trans (hnone rival)⟩
    rcases hanswer with ⟨-, c, hcell⟩ | ⟨-, rfl⟩
    · rw [hcell]
      simp
    · exact hsome
  · rw [hother, hdeletes]
    exact h.deleted
  · -- A set after the delete breaks the order.
    rw [hdeletes, setsFirst_snoc]
    exact fun hdeleted hfirst => absurd hsets (hfirst.2 hdeleted)
  · rw [hpush]
    rintro - hlast
    rcases hanswer with ⟨-, c, hcell⟩ | ⟨rfl, -⟩
    · rw [hcell]
      simp
    · cases hlast
  · rw [hpush]
    exact nofun
  · rw [hpush]
    rintro r' hr'
    rw [← Option.some.inj hr']
    rcases hanswer with ⟨hok, -⟩ | ⟨hcont, -⟩
    · exact .inl hok
    · exact .inr hcont

/-- The delete of the record by the deregistration, which comes once. -/
theorem Recorded.delete {w : World} {tr : RivalTrace} (h : Recorded s D w tr) {d : DefaultImpu}
    (hd : d.impu = D) (hfirst : (logOf s D .deregistration tr).deleted = false) :
    Recorded s D (serve (.deleteImpu s (.default d)) w).2
      (tr ++ [(.deregistration, ⟨.deleteImpu s (.default d), Status.ok⟩)]) := by
  have hcells : ((serve (.deleteImpu s (.default d)) w).2.stores s).impus.cells D = none := by
    show ((w.setImpus s ((w.stores s).impus.erase d.impu)).stores s).impus.cells D = none
    rw [World.setImpus_stores_self, hd]
    exact CasTable.erase_cells_self _ _
  have hderegistration : logOf s D .deregistration
      (tr ++ [(.deregistration, ⟨.deleteImpu s (.default d), Status.ok⟩)])
        = { logOf s D .deregistration tr with deleted := true } := by
    rw [logOf_snoc_self]
    exact if_pos ⟨rfl, hd, rfl⟩
  have hpush : logOf s D .push (tr ++ [(.deregistration, ⟨.deleteImpu s (.default d), Status.ok⟩)])
      = logOf s D .push tr := logOf_snoc_ne (by decide) tr _
  have hdeletes : Deletes s D (.deregistration, ⟨.deleteImpu s (.default d), Status.ok⟩) :=
    ⟨rfl, d, rfl, hd⟩
  have hnoset : ¬ Sets s D (.deregistration, ⟨.deleteImpu s (.default d), Status.ok⟩) := by
    rintro ⟨hrival, -⟩
    cases hrival
  -- The deregistration deletes once, so this is the first delete of the trace.
  have hnone : ∀ e ∈ tr, ¬ Deletes s D e := by
    intro e he hdeleted
    rw [h.deleted.mpr ⟨e, he, hdeleted⟩] at hfirst
    cases hfirst
  refine ⟨?_, fun rival => ?_, fun hno => ?_, ?_, ?_, ?_, ?_, ?_⟩
  · intro c x hx
    rw [hcells] at hx
    cases hx
  · cases rival with
    | push =>
      rw [hpush]
      exact h.unseen .push
    | deregistration =>
      rw [hderegistration]
      exact h.unseen .deregistration
  · exact absurd hdeletes (hno _ (List.mem_append_right _ List.mem_cons_self))
  · rw [hderegistration]
    exact iff_of_true rfl ⟨_, List.mem_append_right _ List.mem_cons_self, hdeletes⟩
  · exact fun _ _ => hcells
  · -- Nothing was deleted before, so no set came after a delete.
    intro hlate
    exact absurd (setsFirst_snoc.mpr ⟨setsFirst_of_not_deletes hnone, fun _ => hnoset⟩) hlate
  · rw [hpush]
    exact fun hnone => not_sets_snoc (h.unset hnone) hnoset
  · rw [hpush]
    exact h.answered

/-- A call that a client may make keeps the invariant. -/
theorem Recorded.step {w : World} {tr : RivalTrace} (h : Recorded s D w tr) {rival : Rival} {o : Call}
    (hpermits : (keyMonitor s D rival).permits (logOf s D rival tr) o) :
    Recorded s D (serve o w).2 (tr ++ [(rival, ⟨o, (serve o w).1⟩)]) := by
  by_cases hkey : o.impuKey = some (s, D)
  · have hmay := hpermits hkey
    cases o with
    | setImpu s' impu =>
      cases impu with
      | default d =>
        obtain ⟨rfl, hd⟩ := Prod.mk.inj (Option.some.inj hkey)
        obtain rfl : rival = .push := hmay
        exact h.set hd
      | associated a => exact hmay.elim
    | deleteImpu s' impu =>
      cases impu with
      | default d =>
        obtain ⟨rfl, hd⟩ := Prod.mk.inj (Option.some.inj hkey)
        obtain ⟨rfl, hfirst⟩ := hmay
        exact h.delete hd hfirst
      | associated a =>
        -- The client would have to have read an associated IMPU, and there never was one.
        have hfound : (logOf s D rival tr).foundAssociated = true := hmay
        rw [h.unseen rival] at hfound
        cases hfound
    | _ => exact hmay.elim
  · exact h.other rival hkey

/-- The invariant at the start, with the record in the store. -/
theorem recorded_start {w : World} {c : Nat} {d : DefaultImpuData}
    (hrecord : (w.stores s).impus.cells D = some (c, .decoded (.default d))) : Recorded s D w [] where
  isDefault c' x hx := by
    rw [hrecord] at hx
    obtain ⟨-, rfl⟩ := Prod.mk.inj (Option.some.inj hx)
    exact ⟨d, rfl⟩
  unseen _ := rfl
  before _ := ⟨by rw [hrecord]; simp, fun _ => rfl⟩
  deleted := iff_of_false (by simp [logOf, Monitor.after, Pool.histOf]) (by simp)
  gone := by simp
  ghost hlate := absurd .nil hlate
  unset _ := by simp
  answered r hr := by cases hr

end Pool

/-- The push and the deregistration of the IRS for `D`, before their first store call. -/
def rivalPool (px : XmlParser) (cache : MemcachedCache) (D : String) (w : World)
    (lookups : Rival → Lookup) (xml : Option String) (addresses : Option ChargingAddresses) :
    Pool Rival Call Call.Resp World (Option (Status × Irs)) :=
  .start w fun
    | .push => (updateClient (lookups .push) (pprSetters xml addresses)).run px cache D
    | .deregistration => cache.deregister D (lookups .deregistration)

/-- Any interleaving of a deregistration that deletes the IRS for `D` and a profile push for the
same IRS, on a store that holds the record of `D`. When both have returned, the record is gone
if and only if the push made no set of it after the delete. -/
theorem deregistration_kept_iff (px : XmlParser) (cache : MemcachedCache) (D : String) (w : World)
    (lookups : Rival → Lookup) (xml : Option String) (addresses : Option ChargingAddresses)
    (hxml : KeepsDefault (pprSetters xml addresses) px D) (d : DefaultImpuData)
    (hrecord : (w.stores cache.localStore).defaultAt D = some d) (is : List Rival)
    (pushed : Option (Status × Irs)) (deleted : Status × Irs) :
    let c := Pool.run serve is (rivalPool px cache D w lookups xml addresses)
    c.prog .push = .ret pushed → c.prog .deregistration = .ret (some deleted) →
      ((c.world.stores cache.localStore).defaultAt D = none ↔
        SetsFirst cache.localStore D c.trace) := by
  intro c hpushed hdeleted
  obtain ⟨cas, hcell⟩ := CasTable.value?_eq_some.mp (ImpuStore.defaultAt_eq_some.mp hrecord)
  have hsound : Pool.Sound serve (fun rival => (keyMonitor cache.localStore D rival).contract {})
      (fun rival r hs _ => Left rival r ((keyMonitor cache.localStore D rival).after {} hs))
      (Recorded cache.localStore D) c := by
    refine Monitor.Keeps.sound (fun rival => ?_) (recorded_start hcell)
      (fun rival w tr o h hpermits => h.step hpermits) is
    cases rival with
    | push => exact keeps_push hxml (lookups .push)
    | deregistration => exact keeps_deregister (lookups .deregistration)
  have hinv : Recorded cache.localStore D c.world c.trace := hsound.inv
  have hpush : Left .push pushed (logOf cache.localStore D .push c.trace) := hsound.post hpushed
  have hderegistration : Left .deregistration (some deleted)
      (logOf cache.localStore D .deregistration c.trace) := hsound.post hdeleted
  -- The deregistration did not miss the record, so it deleted it.
  have hdone : ∃ e ∈ c.trace, Deletes cache.localStore D e := by
    by_contra hno
    have hno' : ∀ e ∈ c.trace, ¬ Deletes cache.localStore D e := fun e he h => hno ⟨e, he, h⟩
    rcases hderegistration with ⟨hnone, -⟩ | ⟨-, hassoc | ⟨hrival, -⟩ | ⟨-, hlog | hmissed⟩⟩
    · cases hnone
    · rw [hinv.unseen .deregistration] at hassoc
      cases hassoc
    · cases hrival
    · exact hno (hinv.deleted.mp hlog)
    · rw [(hinv.before hno').2 .deregistration] at hmissed
      cases hmissed
  constructor
  · intro hgone
    by_contra hlate
    -- A push that has set the record goes on until it is written.
    have hset : (logOf cache.localStore D .push c.trace).lastSet = some .ok := by
      have hsome : (logOf cache.localStore D .push c.trace).lastSet ≠ none := by
        intro hnone
        refine hlate (List.pairwise_of_forall_mem_list fun e _ e' he' _ => ?_)
        exact hinv.unset hnone e' he'
      rcases hpush with ⟨-, hfresh⟩ | ⟨-, hassoc | ⟨-, r, hlast, hr⟩ | ⟨hrival, -⟩⟩
      · exact absurd hfresh.1 hsome
      · rw [hinv.unseen .push] at hassoc
        cases hassoc
      · rw [hlast, (hinv.answered r hlast).resolve_right hr]
      · cases hrival
    -- The last set wrote the record, and nothing has deleted it since.
    cases hcell' : (c.world.stores cache.localStore).impus.cells D with
    | none => exact hinv.ghost hlate hset hcell'
    | some entry =>
      obtain ⟨cas', x⟩ := entry
      obtain ⟨d', rfl⟩ := hinv.isDefault cas' x hcell'
      have hfound : (c.world.stores cache.localStore).defaultAt D = some d' :=
        ImpuStore.defaultAt_eq_some.mpr (CasTable.value?_of_cells hcell')
      rw [hfound] at hgone
      cases hgone
  · intro hfirst
    unfold ImpuStore.defaultAt
    rw [CasTable.value?_eq_none.mpr (hinv.gone hdone hfirst)]

/-- A registered subscriber. -/
def registeredRecord : DefaultImpuData where
  registrationState := true
  serviceProfile := "profile"
  expiry := 100
  assocImpu := []
  impis := []
  ecfs := []
  ccfs := []

/-- New charging addresses are pushed for the subscriber, who is deregistered. -/
def chargingPool : Pool Rival Call Call.Resp World (Option (Status × Irs)) :=
  rivalPool (.ofTable []) oneStore "sip:d@example.com"
    (.ofTables [("sip:d@example.com", .default registeredRecord)] [])
    (fun _ => .byImpu "sip:d@example.com") none (some { ccfs := ["ccf"] })

theorem keepsDefault_charging :
    KeepsDefault (pprSetters none (some { ccfs := ["ccf"] })) (.ofTable []) "sip:d@example.com" := by
  intro xml hmem
  simp [pprSetters] at hmem

/-- The push goes first. -/
theorem deregistration_kept_iff_pushFirst :
    let c := Pool.run serve (List.replicate 6 .push ++ List.replicate 6 .deregistration) chargingPool
    (c.world.stores 0).defaultAt "sip:d@example.com" = none ∧
      SetsFirst 0 "sip:d@example.com" c.trace := by
  have hgone : ((Pool.run serve (List.replicate 6 .push ++ List.replicate 6 .deregistration)
      chargingPool).world.stores 0).defaultAt "sip:d@example.com" = none := by decide
  exact ⟨hgone, (deregistration_kept_iff (.ofTable []) oneStore "sip:d@example.com" _
    (fun _ => .byImpu "sip:d@example.com") none (some { ccfs := ["ccf"] }) keepsDefault_charging
    registeredRecord (by decide) _ _ _ rfl rfl).mp hgone⟩

/-- The push has read the record before the deregistration deletes it. Its set meets a conflict,
the second read finds nothing, and the record is created again. Both return `OK`, and the
subscriber is registered. -/
theorem deregistration_undone :
    let c := Pool.run serve
      ([.push, .push] ++ List.replicate 6 .deregistration ++ List.replicate 9 .push) chargingPool
    (∃ pushed, c.prog .push = .ret (some (.ok, pushed))) ∧
      (∃ deleted, c.prog .deregistration = .ret (some (.ok, deleted))) ∧
      ((c.world.stores 0).defaultAt "sip:d@example.com").map DefaultImpuData.registrationState
        = some true :=
  ⟨⟨_, rfl⟩, ⟨_, rfl⟩, by decide⟩

end Homestead

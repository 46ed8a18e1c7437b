import Homestead.Lib.Monitor
import Homestead.Model.Tasks
import Homestead.Proofs.FailedPut
import Homestead.Proofs.DeleteReported
import Homestead.Proofs.PushAcknowledged

/-!
# `Homestead.Proofs.TaskRuns`: cache operations inside a task

A task runs an operation of the cache with its progress callback inside it. What a monitor of the
task needs to know of the operation is said here once, for every monitor.

* A lookup only reads (`only_getImplicitRegistrationSetForImpu` and its siblings), and
  `keeps_runLookup` carries that over to the task.
* An operation that changes the cache calls the progress callback once if it will return `OK`,
  and otherwise not (`keeps_perform`). `keeps_runOperation` carries that over.
-/

set_option autoImplicit false

namespace Homestead

open CacheProg

/-- The calls of a run of a task, with their answers. -/
abbrev TaskHistory := List (Event TaskCall TaskCall.Resp)

/-- The stores after the calls of a run. -/
def World.afterTask (w : World) (hs : TaskHistory) : World :=
  hs.foldl (fun w e => match e with
    | ⟨.store call, r⟩ => w.answered call r
    | _ => w) w

theorem World.answered_of_isRead {o : Call} (h : o.IsRead) (w : World) (r : o.Resp) :
    w.answered o r = w := by
  cases o with
  | getImpu s impu => rfl
  | getImpiMapping s impi => rfl
  | time => rfl
  | progressCb => rfl
  | _ => exact h.elim

/-- A run that only reads leaves the stores as they are. -/
theorem World.afterTask_of_reads {hs : TaskHistory} (w : World)
    (h : ∀ call r, ⟨.store call, r⟩ ∈ hs → call.IsRead) : w.afterTask hs = w := by
  induction hs with
  | nil => rfl
  | cons e hs ih =>
    have hrest := ih fun call r hmem => h call r (List.mem_cons_of_mem _ hmem)
    obtain ⟨o, r⟩ := e
    cases o with
    | store call =>
      have hfirst : w.answered call r = w := answered_of_isRead (h call r List.mem_cons_self) w r
      have hafter : afterTask w (⟨.store call, r⟩ :: hs) = afterTask (w.answered call r) hs := rfl
      rw [hafter, hfirst]
      exact hrest
    | _ => exact hrest

/-! ### Lookups -/

/-- A call that a lookup makes. -/
def Call.IsLookup : Call → Prop
  | .getImpu _ _ => True
  | .getImpiMapping _ _ => True
  | .time => True
  | _ => False

theorem Call.IsLookup.isRead {o : Call} (h : o.IsLookup) : o.IsRead := by
  cases o <;> trivial

section Lookups

variable (cache : MemcachedCache)

theorem only_getImpuForImpuGr (impu : String) : Only Call.IsLookup (cache.getImpuForImpuGr impu) := by
  refine .call (by exact trivial) fun (found : Status × Option Impu) => ?_
  show Only _ (if found.1 = .notFound then _ else _)
  split
  · refine .forEach (fun s _ found => ?_) _
    refine .call (by exact trivial) fun (remote : Status × Option Impu) => ?_
    show Only _ (if found.1 ≠ .ok ∧ remote.1 = .ok then
      (pure remote : CacheProg (Status × Option Impu)) else pure found)
    split <;> exact .ret _
  · exact .ret _

theorem only_getImplicitRegistrationSetForImpu (impu : String) :
    Only Call.IsLookup (cache.getImplicitRegistrationSetForImpu impu) := by
  have hdefault : Only Call.IsLookup (cache.getDefaultImpuForImpu impu) := by
    refine (only_getImpuForImpuGr cache impu).bind fun data => ?_
    obtain ⟨_ | _ | _ | _, _ | d | a⟩ := data
    case ok.some.associated => exact (only_getImpuForImpuGr cache _).bind fun _ => .ret _
    all_goals exact .ret _
  refine hdefault.bind fun found => ?_
  obtain ⟨_ | _ | _ | _, _ | d⟩ := found
  case ok.some => exact .call (by exact trivial) fun _ => .ret _
  all_goals exact .ret _

theorem only_getImpiMappingGr (impi : String) : Only Call.IsLookup (cache.getImpiMappingGr impi) := by
  have hremote : ∀ found rs,
      Only Call.IsLookup (MemcachedCache.getImpiMappingRemote impi found rs) := by
    intro found rs
    induction rs with
    | nil => exact .ret _
    | cons r rs ih =>
      refine .call (by exact trivial) fun (remote : Status × Option ImpiMapping) => ?_
      show Only _ (if remote.1 = .ok then _ else _)
      split
      · exact .ret _
      · exact ih
  refine .call (by exact trivial) fun (found : Status × Option ImpiMapping) => ?_
  show Only _ (if found.1 = .notFound then _ else _)
  split
  · exact hremote _ _
  · exact .ret _

theorem only_getImpusForImpi (impi : String) : Only Call.IsLookup (cache.getImpusForImpi impi) := by
  refine (only_getImpiMappingGr cache impi).bind fun found => ?_
  obtain ⟨_ | _ | _ | _, _ | m⟩ := found <;> exact .ret _

theorem only_getImplicitRegistrationSetsForImpus (impus : List String) (result : List Irs) :
    Only Call.IsLookup (cache.getImplicitRegistrationSetsForImpus impus result) := by
  refine .bind ?_ fun found => .ret _
  induction impus generalizing result with
  | nil => exact .ret _
  | cons impu impus ih =>
    refine (only_getImplicitRegistrationSetForImpu cache impu).bind fun inner => ?_
    obtain ⟨_ | _ | _ | _, _ | irs⟩ := inner
    case notFound.none | notFound.some => exact ih result
    all_goals exact .ret _

theorem only_getImplicitRegistrationSetsForImpi (impi : String) (result : List Irs) :
    Only Call.IsLookup (cache.getImplicitRegistrationSetsForImpi impi result) := by
  refine (only_getImpusForImpi cache impi).bind fun impus => ?_
  split
  · exact only_getImplicitRegistrationSetsForImpus cache _ _
  · exact .ret _

theorem only_getImplicitRegistrationSetsForImpis (impis : List String) (result : List Irs) :
    Only Call.IsLookup (cache.getImplicitRegistrationSetsForImpis impis result) := by
  refine .bind ?_ fun found => .ret _
  induction impis generalizing result with
  | nil => exact .ret _
  | cons impi impis ih =>
    refine (only_getImplicitRegistrationSetsForImpi cache impi []).bind fun inner => ?_
    obtain ⟨_ | _ | _ | _, irss⟩ := inner
    case ok | notFound => exact ih _
    all_goals exact .ret _

theorem only_getImsSubscription (impi : String) :
    Only Call.IsLookup (cache.getImsSubscription impi) := by
  refine (only_getImpiMappingGr cache impi).bind fun found => ?_
  obtain ⟨_ | _ | _ | _, _ | m⟩ := found
  case ok.some =>
    refine (only_getImplicitRegistrationSetsForImpus cache _ _).bind fun irss => ?_
    split <;> exact .ret _
  all_goals exact .ret _

end Lookups

/-! ### Operations -/

/-- The progress callback may be called once. The state says whether it was. -/
def progressMonitor : Monitor Call Call.Resp Bool where
  permits called o := o = .progressCb → called = false
  step called e := called || isProgress e

theorem progressMonitor_on {s : StoreId} {o : Call} (h : o.On s) (called : Bool) :
    progressMonitor.permits called o ∧ ∀ r, progressMonitor.step called ⟨o, r⟩ = called := by
  have hne : o ≠ .progressCb := by
    rintro rfl
    exact h
  refine ⟨fun heq => absurd heq hne, fun r => ?_⟩
  simp [progressMonitor, isProgress, hne]

/-- An operation calls the progress callback if it returns `OK`, and otherwise not. -/
def Signals {σ : Type} (p : CacheProg (Status × σ)) : Prop :=
  progressMonitor.Keeps (fun r called => called = r.1.isOk) false p

theorem signals_perform {σ : Type} {cache : MemcachedCache}
    {action : StoreId → σ → CacheProg (Status × σ)} (hon : ∀ s x, Only (Call.On s) (action s x))
    (x : σ) : Signals (cache.perform action x) := by
  refine (Monitor.Keeps.of_only (hon _ _) fun o ho => progressMonitor_on ho false).bind
    fun found called hcalled => ?_
  subst hcalled
  split
  · refine .call fun _ => ⟨fun _ => rfl, ?_⟩
    refine (Monitor.Keeps.forEach (fun _ called => called = true) (fun s y called hcalled => ?_)
      (by rfl)).bind fun y called hcalled => .ret ?_
    · refine ((Monitor.Keeps.of_only (hon _ _) fun o ho => progressMonitor_on ho called)).bind
        fun inner called' hcalled' => .ret ?_
      rw [hcalled', hcalled]
    · rw [hcalled]
      rfl
  · rename_i hne
    exact .ret (decide_eq_false hne).symm

/-- An operation that has nothing to do calls the callback and returns `OK`. -/
theorem signals_nothing {σ : Type} (x : σ) :
    Signals (do progressCb; pure (.ok, x) : CacheProg (Status × σ)) :=
  .call fun _ => ⟨fun _ => rfl, .ret rfl⟩

theorem signals_putImplicitRegistrationSet (cache : MemcachedCache) (irs : Irs) :
    Signals (cache.putImplicitRegistrationSet irs) := by
  unfold MemcachedCache.putImplicitRegistrationSet
  split
  · exact signals_perform (fun s irs => only_putIrsAction) irs
  · exact signals_nothing irs

theorem signals_deleteImplicitRegistrationSet (cache : MemcachedCache) (irs : Irs) :
    Signals (cache.deleteImplicitRegistrationSet irs) := by
  unfold MemcachedCache.deleteImplicitRegistrationSet
  split
  · exact signals_perform (fun s irs => only_deleteIrsAction) irs
  · exact signals_nothing irs

theorem signals_deleteImplicitRegistrationSets (cache : MemcachedCache) (irss : List Irs) :
    Signals (cache.deleteImplicitRegistrationSets irss) :=
  signals_perform (fun s irss => only_deleteIrssAction s irss .ok) irss

theorem signals_putImsSubscription (cache : MemcachedCache) (sub : ImsSubscription) :
    Signals (cache.putImsSubscription sub) :=
  signals_perform only_putImsSubAction sub

/-! ### Inside a task -/

section Inside

variable {S : Type} {M : Monitor TaskCall TaskCall.Resp S} {α : Type}

/-- At the state `s`, the monitor lets the call pass and does not change. -/
def Passes (M : Monitor TaskCall TaskCall.Resp S) (s : S) (o : TaskCall) : Prop :=
  M.permits s o ∧ ∀ r, M.step s ⟨o, r⟩ = s

/-- A call that passes, with the rest of the program after it. -/
theorem Passes.keeps {s : S} {o : TaskCall} (h : Passes M s o) {Q : α → S → Prop}
    {k : o.Resp → TaskProg α} (hk : ∀ r, M.Keeps Q s (k r)) : M.Keeps Q s (.call o k) :=
  .call_to h.1 h.2 hk

/-- A call of the cache other than the progress callback. -/
theorem keeps_runCall {progressCb : TaskProg Unit} {s : S} {o : Call} (ho : o ≠ .progressCb)
    (hpasses : Passes M s (.store o)) : M.Keeps (fun _ s' => s' = s) s (runCall progressCb o) := by
  cases o with
  | progressCb => exact absurd rfl ho
  | _ => exact hpasses.keeps fun _ => .ret rfl

theorem nonempty_resp (o : Call) : Nonempty o.Resp := by
  cases o with
  | getImpu s impu => exact ⟨(.ok, none)⟩
  | getImpiMapping s impi => exact ⟨(.ok, none)⟩
  | time => exact ⟨(0 : Int)⟩
  | progressCb => exact ⟨()⟩
  | _ => exact ⟨Status.ok⟩

/-- The calls of a lookup are permitted. -/
def lookupMonitor : Monitor Call Call.Resp Unit where
  permits _ o := o.IsLookup
  step _ _ := ()

/-- A lookup inside a task, with what is known of its results. -/
theorem keeps_runLookup {p : CacheProg α} (hp : Only Call.IsLookup p) {R : α → Prop}
    (hR : ∀ hs a, Ran p hs a → R a) {s : S}
    (hpasses : ∀ o : Call, o.IsLookup → Passes M s (.store o)) :
    M.Keeps (fun a s' => s' = s ∧ R a) s (runLookup p) := by
  have hlookup : lookupMonitor.Keeps (fun a s' => s' = () ∧ R a) () p :=
    (Monitor.Keeps.of_only hp fun _ ho => ⟨ho, fun _ => rfl⟩).and_ran hR
  refine (Monitor.Keeps.interp (fun _ => s) (fun _ o ho => ?_) nonempty_resp hlookup).weaken
    fun a s' h => ?_
  · refine keeps_runCall ?_ (hpasses o ho)
    rintro rfl
    exact ho
  · obtain ⟨-, hs', -, ha⟩ := h
    exact ⟨hs', ha⟩

/-- An operation inside a task. The progress callback takes the monitor from `s₀` to `s₁`, and
the operation does so if it returns `OK`. -/
theorem keeps_runOperation {σ : Type} {p : CacheProg (Status × σ)} (hp : Signals p)
    {R : Status × σ → Prop} (hR : ∀ hs r, Ran p hs r → R r) {progressCb : TaskProg Unit} {s₀ s₁ : S}
    (hprogress : M.Keeps (fun _ s => s = s₁) s₀ progressCb)
    (hpasses : ∀ o : Call, Passes M s₀ (.store o) ∧ Passes M s₁ (.store o)) :
    M.Keeps (fun r s => s = (if r.1 = .ok then s₁ else s₀) ∧ R r) s₀
      (p.interp (runCall progressCb)) := by
  let g : Bool → S := fun called => if called then s₁ else s₀
  refine (Monitor.Keeps.interp g (fun called o ho => ?_) nonempty_resp (hp.and_ran hR)).weaken
    fun r s h => ?_
  · by_cases ho' : o = .progressCb
    · subst ho'
      have hcalled : called = false := ho rfl
      subst hcalled
      exact hprogress
    · have hstep : ∀ r, progressMonitor.step called ⟨o, r⟩ = called := fun r => by
        simp [progressMonitor, isProgress, ho']
      refine (keeps_runCall ho' ?_).weaken fun r s hs => ?_
      · cases called with
        | true => exact (hpasses o).2
        | false => exact (hpasses o).1
      · rw [hs, hstep r]
  · obtain ⟨called, rfl, hcalled, hr⟩ := h
    refine ⟨?_, hr⟩
    show (if called then s₁ else s₀) = _
    rw [hcalled]
    simp [Status.isOk]

/-- A work item that looks up one object, with what is known of the object. -/
theorem keeps_lookedUp {β : Type} {p : CacheProg (Status × Option β)} (hp : Only Call.IsLookup p)
    {R : β → Prop} (hR : ∀ hs b, Ran p hs (.ok, some b) → R b) {s : S} {request : CacheRequest}
    (hwork : Passes M s (.addWork request))
    (hpasses : ∀ o : Call, o.IsLookup → Passes M s (.store o)) {Q : α → S → Prop}
    {successCb : β → TaskProg α} {failureCb : Status → TaskProg α}
    (hsuccess : ∀ b, R b → M.Keeps Q s (successCb b)) (hfailure : ∀ rc, M.Keeps Q s (failureCb rc)) :
    M.Keeps Q s (TaskProg.addWork request >>= fun _ => runLookup p >>=
      HssCacheProcessor.lookedUp successCb failureCb) := by
  refine hwork.keeps fun _ => ?_
  refine (keeps_runLookup hp (R := fun r => ∀ b, r = (.ok, some b) → R b) ?_ hpasses).bind ?_
  · rintro hs _ hran b rfl
    exact hR hs b hran
  · rintro ⟨_ | _ | _ | _, _ | b⟩ s' ⟨rfl, hb⟩
    case ok.some => exact hsuccess b (hb b rfl)
    all_goals exact hfailure _

/-- A work item that looks up several objects. -/
theorem keeps_lookedUpAll {β : Type} {p : CacheProg (Status × List β)} (hp : Only Call.IsLookup p)
    {s : S} {request : CacheRequest} (hwork : Passes M s (.addWork request))
    (hpasses : ∀ o : Call, o.IsLookup → Passes M s (.store o)) {Q : α → S → Prop}
    {successCb : List β → TaskProg α} {failureCb : Status → TaskProg α}
    (hsuccess : ∀ b, M.Keeps Q s (successCb b)) (hfailure : ∀ rc, M.Keeps Q s (failureCb rc)) :
    M.Keeps Q s (TaskProg.addWork request >>= fun _ => runLookup p >>=
      HssCacheProcessor.lookedUpAll successCb failureCb) := by
  refine hwork.keeps fun _ => ?_
  refine (keeps_runLookup hp (R := fun _ => True) (fun _ _ _ => trivial) hpasses).bind ?_
  rintro found s' ⟨rfl, -⟩
  unfold HssCacheProcessor.lookedUpAll
  split
  · exact hsuccess _
  · exact hfailure _

/-- A work item that changes the cache. -/
theorem keeps_operation {σ : Type} {p : CacheProg (Status × σ)} (hp : Signals p)
    {R : Status × σ → Prop} (hR : ∀ hs r, Ran p hs r → R r) {s s₀ s₁ : S} {request : CacheRequest}
    (hwork : M.permits s (.addWork request) ∧ ∀ r, M.step s ⟨.addWork request, r⟩ = s₀)
    {progressCb : TaskProg Unit} (hprogress : M.Keeps (fun _ s => s = s₁) s₀ progressCb)
    (hpasses : ∀ o : Call, Passes M s₀ (.store o) ∧ Passes M s₁ (.store o)) {Q : α → S → Prop}
    {successCb : TaskProg α} {failureCb : Status → TaskProg α} (hsuccess : M.Keeps Q s₁ successCb)
    (hfailure : ∀ r, R r → r.1 ≠ .ok → M.Keeps Q s₀ (failureCb r.1)) :
    M.Keeps Q s (TaskProg.addWork request >>= fun _ => p.interp (runCall progressCb) >>=
      HssCacheProcessor.done successCb failureCb) := by
  refine .call_to hwork.1 hwork.2 fun _ => ?_
  refine (keeps_runOperation hp hR hprogress hpasses).bind ?_
  rintro r s' ⟨rfl, hr⟩
  unfold HssCacheProcessor.done
  by_cases hok : r.1 = .ok
  · rw [if_pos hok, if_pos hok]
    exact hsuccess
  · rw [if_neg hok, if_neg hok]
    exact hfailure r hr hok

end Inside

end Homestead

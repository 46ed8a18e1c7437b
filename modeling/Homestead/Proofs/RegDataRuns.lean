import Homestead.Proofs.RegDataSteps
import Homestead.Proofs.TaskRuns

/-!
# `Homestead.Proofs.RegDataRuns`: monitors of a reg-data task

Several monitors of `ImpuRegDataTask` watch the same few calls: the results of the lookups, the
SARs, and the changes of the cache that are queued. Everything else that the task does is aside
(`TaskCall.Aside`), and a monitor that lets it pass (`Unwatched`) is kept by the answer and the end
of the task.

`Leaves M Inv s p` says that the function `p` of the task keeps the monitor, and that a task which
starts over satisfies `Inv`. The lemmas follow the functions of the task, and leave to the monitor
what it watches: `leaves_updateCache` the queued change, `leaves_onSarResponse` the retry,
`leaves_getRegData` the two outcomes of the lookup. `keeps_run_of_leaves` is the whole task.
-/

set_option autoImplicit false

namespace Homestead

/-- The calls of a reg-data task other than the results of a lookup, the SARs, and the changes of
the cache. -/
def TaskCall.Aside : TaskCall → Prop
  | .store call => call.IsRead
  | .addWork (.getIrsForImpu _) => True
  | .addWork _ => False
  | .callback (.onGetRegDataSuccess _) => False
  | .callback (.onGetRegDataFailure _) => False
  | .callback _ => True
  | .createImplicitRegistrationSet => True
  | .buildClearwaterRegDataXml _ => True
  | .recordPenalty => True
  | .sendHttpReply _ _ => True
  | .deleteThis => True
  | _ => False

section Monitors

variable {S : Type} (M : Monitor TaskCall TaskCall.Resp S)

/-- The monitor lets pass what is aside. -/
def Unwatched : Prop := ∀ s o, TaskCall.Aside o → Passes M s o

/-- The request may be queued, and then the monitor lets every call of the stores pass. -/
def Queues (s : S) (request : CacheRequest) : Prop :=
  M.permits s (.addWork request) ∧
    ∀ o : Call, Passes M (M.step s ⟨.addWork request, ()⟩) (.store o)

end Monitors

theorem Unwatched.keeps {S α : Type} {M : Monitor TaskCall TaskCall.Resp S} (hM : Unwatched M) {s : S}
    {o : TaskCall} (ho : o.Aside) {Q : α → S → Prop} {k : o.Resp → TaskProg α}
    (hk : ∀ r, M.Keeps Q s (k r)) : M.Keeps Q s (.call o k) :=
  (hM s o ho).keeps hk

namespace ImpuRegDataTask

variable {S : Type} {M : Monitor TaskCall TaskCall.Resp S} {Inv : ImpuRegDataTask → S → Prop} {s : S}
  {cfg : RegDataConfig} {t : ImpuRegDataTask} {irs : Irs} {saa : ServerAssignmentAnswer}

/-- A function of the task, entered at `s`: a task that starts over satisfies `Inv`. -/
abbrev Leaves (M : Monitor TaskCall TaskCall.Resp S) (Inv : ImpuRegDataTask → S → Prop) (s : S)
    (p : TaskProg (Option ImpuRegDataTask)) : Prop :=
  M.Keeps (fun r s => ∀ t, r = some t → Inv t s) s p

theorem keeps_sendReply_aside (hM : Unwatched M) (t : ImpuRegDataTask) (s : S) :
    M.Keeps (fun _ s' => s' = s) s t.sendReply := by
  unfold sendReply
  split
  · exact hM.keeps (by exact trivial) fun _ => .ret rfl
  · exact hM.keeps (by exact trivial) fun _ => hM.keeps (by exact trivial) fun _ => .ret rfl

theorem leaves_finish (hM : Unwatched M) : Leaves M Inv s finish :=
  hM.keeps (by exact trivial) fun _ => .ret (by simp)

theorem leaves_rejectWith (hM : Unwatched M) (rc : HttpCode) : Leaves M Inv s (rejectWith rc) :=
  hM.keeps (by exact trivial) fun _ => leaves_finish hM

theorem leaves_replyAndFinish (hM : Unwatched M) : Leaves M Inv s t.replyAndFinish :=
  (keeps_sendReply_aside hM t s).bind fun _ _ _ => leaves_finish hM

/-- A change of the cache, from its request to its callbacks. -/
theorem leaves_operation {σ : Type} {p : CacheProg (Status × σ)} (hp : Signals p)
    {request : CacheRequest} (hqueues : Queues M s request) {progressCb : TaskProg Unit}
    {successCb : TaskProg (Option ImpuRegDataTask)}
    {failureCb : Status → TaskProg (Option ImpuRegDataTask)}
    (hprogress : ∀ s, M.Keeps (fun _ s' => s' = s) s progressCb)
    (hsuccess : ∀ s, Leaves M Inv s successCb) (hfailure : ∀ s rc, Leaves M Inv s (failureCb rc)) :
    Leaves M Inv s (TaskProg.addWork request >>= fun _ => p.interp (runCall progressCb) >>=
      HssCacheProcessor.done successCb failureCb) :=
  keeps_operation hp (R := fun _ => True) (fun _ _ _ => trivial) ⟨hqueues.1, fun _ => rfl⟩
    (hprogress _) (fun o => ⟨hqueues.2 o, hqueues.2 o⟩) (hsuccess _) fun r _ _ => hfailure _ r.1

/-- `put_in_cache` and the deletion, when they may be queued. -/
theorem leaves_updateCache (hM : Unwatched M)
    (hput : saa.result = .success → t.type.isDeregistrationRequest = false →
      t.type.isAuthFailureRequest = false → Queues M s (.putIrs
        (((irs.setChargingAddresses saa.chargingAddresses).setImsSubXml cfg.px
          saa.serviceProfile).setTtl cfg.recordTtl)))
    (hdelete : t.type.isDeregistrationRequest = true → saa.result ≠ .serverUnavailable →
      Queues M s (.deleteIrs irs)) :
    Leaves M Inv s (t.updateCache cfg irs saa) := by
  unfold updateCache
  split
  · rename_i hcond
    dsimp only
    unfold putInCache
    split
    · exact leaves_replyAndFinish hM
    · exact leaves_operation (signals_putImplicitRegistrationSet _ _)
        (hput hcond.1 (by simpa using hcond.2.1) (by simpa using hcond.2.2))
        (fun s => hM.keeps (by exact trivial) fun _ => keeps_sendReply_aside hM t s)
        (fun s => hM.keeps (by exact trivial) fun _ => leaves_finish hM)
        fun s rc => hM.keeps (by exact trivial) fun _ => leaves_rejectWith hM _
  · split
    · rename_i hcond
      refine leaves_operation (signals_deleteImplicitRegistrationSet _ _) (hdelete hcond.1 hcond.2)
        (fun s => hM.keeps (by exact trivial) fun _ => keeps_sendReply_aside hM t s)
        (fun s => hM.keeps (by exact trivial) fun _ => leaves_finish hM)
        fun s rc => hM.keeps (by exact trivial) fun _ => ?_
      split
      · exact leaves_replyAndFinish hM
      · exact leaves_rejectWith hM _
    · exact leaves_replyAndFinish hM

/-- The HSS names another wildcard than the one in use. -/
def Renamed (t : ImpuRegDataTask) (saa : ServerAssignmentAnswer) : Prop :=
  saa.result = .newWildcard ∧ t.wildcardId ≠ saa.wildcardImpu

/-- `on_sar_response`: a task that starts over has the wildcard of the SAA. -/
theorem leaves_onSarResponse (hM : Unwatched M)
    (hupdate : ¬ t.Renamed saa → ∀ t' : ImpuRegDataTask, t'.type = t.type →
      Leaves M Inv s (t'.updateCache cfg irs saa))
    (hretry : t.Renamed saa → Inv { t with hssWildcard := saa.wildcardImpu } s) :
    Leaves M Inv s (t.onSarResponse cfg irs saa) := by
  have hother : saa.result ≠ .newWildcard → ∀ t' : ImpuRegDataTask, t'.type = t.type →
      Leaves M Inv s (t'.updateCache cfg irs saa) :=
    fun hne => hupdate fun hrenamed => hne hrenamed.1
  refine hM.keeps (by exact trivial) fun _ => ?_
  cases hresult : saa.result with
  | newWildcard =>
    show Leaves M Inv s (if t.wildcardId = saa.wildcardImpu then _ else _)
    split
    · rename_i hsame
      exact hupdate (fun hrenamed => hrenamed.2 hsame) _ rfl
    · rename_i hnew
      refine .ret fun t' ht' => ?_
      obtain rfl := Option.some.inj ht'
      exact hretry ⟨hresult, hnew⟩
  | timeout => exact hM.keeps (by exact trivial) fun _ => hother (by simp [hresult]) _ rfl
  | success => exact hother (by simp [hresult]) _ rfl
  | serverUnavailable => exact hother (by simp [hresult]) _ rfl
  | notFound => exact hother (by simp [hresult]) _ rfl
  | forbidden => exact hother (by simp [hresult]) _ rfl
  | assignmentType => exact hother (by simp [hresult]) _ rfl
  | unknownAuthScheme => exact hother (by simp [hresult]) _ rfl
  | unknown => exact hother (by simp [hresult]) _ rfl

/-- `get_reg_data`, with what is known of the IRSs that are found. A new IRS has whatever the
constructor leaves uninitialised. -/
theorem leaves_getRegData (hM : Unwatched M) {R : Irs → Prop}
    (hR : ∀ hs irs, Ran (cfg.cache.getImplicitRegistrationSetForImpu t.publicId) hs (.ok, some irs) →
      R irs)
    (hfound : ∀ irs, R irs → M.permits s (.callback (.onGetRegDataSuccess irs)) ∧
      Leaves M Inv (M.step s ⟨.callback (.onGetRegDataSuccess irs), ()⟩)
        (t.processReceivedRegData cfg irs))
    (hfailure : ∀ rc, M.permits s (.callback (.onGetRegDataFailure rc)) ∧ ∀ ttl state,
      Leaves M Inv (M.step s ⟨.callback (.onGetRegDataFailure rc), ()⟩)
        (t.processReceivedRegData cfg ((Irs.new ttl state).setRegState .notRegistered))) :
    Leaves M Inv s (t.getRegData cfg) := by
  refine keeps_lookedUp (only_getImplicitRegistrationSetForImpu cfg.cache t.publicId) hR
    (hM s (.addWork (.getIrsForImpu t.publicId)) trivial) (fun o ho => hM s (.store o) ho.isRead)
    (fun irs hirs => ?_) (fun rc => ?_)
  · exact .call fun _ => hfound irs hirs
  · refine .call fun _ => ⟨(hfailure rc).1, ?_⟩
    split
    · split
      · exact hM.keeps (by exact trivial) fun _ => (hfailure rc).2 _ _
      · exact leaves_rejectWith hM _
    · exact leaves_rejectWith hM _

/-- The loop, and the whole task: `Inv` holds at the start of every round. -/
theorem keeps_run_of_leaves (hM : Unwatched M) {req : HttpRequest}
    (hround : ∀ t s, Inv t s → Leaves M Inv s (t.getRegData cfg)) (hinit : Inv (ofRequest cfg req) s) :
    M.Keeps (fun _ _ => True) s (run cfg req) := by
  have hrounds : M.Keeps (fun _ _ => True) s ((ofRequest cfg req).rounds cfg) := by
    refine .bind (Monitor.Keeps.loop (Q := fun _ _ => True)
      (fun r s => ∃ t, r = some t ∧ Inv t s) ?_ ⟨_, rfl, hinit⟩) fun _ _ _ => .ret trivial
    rintro r s ⟨t, rfl, hinv⟩
    refine (hround t s hinv).weaken fun r s hr => ?_
    cases r with
    | none => trivial
    | some t' => exact ⟨t', rfl, hr t' rfl⟩
  have hreject : ∀ rc, M.Keeps (fun _ _ => True) s
      (TaskProg.sendHttpReply rc "" >>= fun _ => TaskProg.deleteThis) := fun rc =>
    hM.keeps (by exact trivial) fun _ => hM.keeps (by exact trivial) fun _ => .ret trivial
  unfold run
  cases req.method with
  | put =>
    show Monitor.Keeps _ _ _ (if (ofRequest cfg req).type = .unknown then _ else _)
    split
    · exact hreject _
    · exact hrounds
  | get => exact hrounds
  | other => exact hreject _

end ImpuRegDataTask

end Homestead

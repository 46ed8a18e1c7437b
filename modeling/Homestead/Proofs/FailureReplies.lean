import Homestead.Model.HssConnection
import Homestead.Model.Registrar
import Homestead.Proofs.OneAnswer
import Homestead.Proofs.RegDataRuns
import Mathlib.Data.List.Induction

/-!
# `Homestead.Proofs.FailureReplies`: what a failure of the HSS comes to

A reg-data task notes the failure of an SAR in `_http_rc`, and goes on to change the cache. The
reply is sent later, from one of several callbacks. `Verdict` is what a run has learned since its
last lookup: the SAA, and whether a penalty was recorded for it. `verdictMonitor` says what the
reply may be then.

* `failure_decides_reply`: in every run, an SAA that failed decides the code of the reply, and a
  penalty is recorded once for each SAA that timed out, and for nothing else.
* `connection_limits`: over Diameter there is no such SAA, and no penalty. Without an HSS no SAA
  names a wildcard, and a task sends one SAR at most.
-/

set_option autoImplicit false

namespace Homestead

/-- What a run has learned since its last lookup. -/
structure Verdict where
  saa : Option ServerAssignmentAnswer := none
  penalised : Bool := false

def Verdict.step (v : Verdict) : Event TaskCall TaskCall.Resp → Verdict
  | ⟨.callback (.onGetRegDataSuccess _), _⟩ => {}
  | ⟨.callback (.onGetRegDataFailure _), _⟩ => {}
  | ⟨.sendServerAssignmentRequest _, saa⟩ => { saa := some saa }
  | ⟨.recordPenalty, _⟩ => { v with penalised := true }
  | _ => v

/-- The verdict after the calls of a run. -/
def verdict (hs : TaskHistory) : Verdict := hs.foldl Verdict.step {}

/-- A penalty was recorded exactly if the SAA timed out. -/
def Verdict.Fair (v : Verdict) : Prop :=
  v.penalised = true ↔ ∃ saa, v.saa = some saa ∧ saa.result = .timeout

/-- The reply is that of the SAA, if the SAA failed. -/
def Verdict.Allows (v : Verdict) (rc : HttpCode) (content : String) : Prop :=
  ∀ saa, v.saa = some saa → saa.result ≠ .success → rc = saa.result.httpCode ∧ content = ""

def verdictMonitor : Monitor TaskCall TaskCall.Resp Verdict where
  permits v
    | .sendHttpReply rc content => v.Fair ∧ v.Allows rc content
    | .recordPenalty => v.penalised = false ∧ ∃ saa, v.saa = some saa ∧ saa.result = .timeout
    | _ => True
  step := Verdict.step

theorem ResultCode.httpCode_eq_ok_iff {result : ResultCode} :
    result.httpCode = httpOk ↔ result = .success := by
  cases result <;> simp [ResultCode.httpCode, httpOk, httpServerUnavailable, httpNotFound,
    httpGatewayTimeout, httpServerError]

/-- The calls that the verdict has nothing to do with. -/
def TaskCall.Plain : TaskCall → Prop
  | .callback (.onGetRegDataSuccess _) => False
  | .callback (.onGetRegDataFailure _) => False
  | .sendServerAssignmentRequest _ => False
  | .recordPenalty => False
  | .sendHttpReply _ _ => False
  | _ => True

section Calls

variable {α : Type} {Q : α → Verdict → Prop} {v : Verdict}

theorem passes_plain {o : TaskCall} (ho : o.Plain) : Passes verdictMonitor v o := by
  cases o with
  | callback cb =>
    cases cb with
    | onGetRegDataSuccess irs => exact ho.elim
    | onGetRegDataFailure rc => exact ho.elim
    | _ => exact ⟨trivial, fun _ => rfl⟩
  | sendServerAssignmentRequest request => exact ho.elim
  | recordPenalty => exact ho.elim
  | sendHttpReply rc content => exact ho.elim
  | _ => exact ⟨trivial, fun _ => rfl⟩

theorem keeps_plain {o : TaskCall} (ho : o.Plain) {k : o.Resp → TaskProg α}
    (hk : ∀ r, verdictMonitor.Keeps Q v (k r)) : verdictMonitor.Keeps Q v (.call o k) :=
  (passes_plain ho).keeps hk

theorem keeps_httpReply {rc : HttpCode} {content : String}
    {k : (TaskCall.sendHttpReply rc content).Resp → TaskProg α} (hfair : v.Fair)
    (hallows : v.Allows rc content) (hk : ∀ r, verdictMonitor.Keeps Q v (k r)) :
    verdictMonitor.Keeps Q v (.call (.sendHttpReply rc content) k) :=
  .call fun r => ⟨⟨hfair, hallows⟩, hk r⟩

end Calls

namespace ImpuRegDataTask

variable {cfg : RegDataConfig} {t : ImpuRegDataTask} {v : Verdict} {irs : Irs}
  {saa : ServerAssignmentAnswer}

/-- The task has noted the verdict. -/
structure Noted (t : ImpuRegDataTask) (v : Verdict) : Prop where
  fair : v.Fair
  httpRc : ∀ saa, v.saa = some saa → saa.result ≠ .success → t.httpRc = saa.result.httpCode

/-- A function of the task. A task that starts over has noted no failure. -/
abbrev Replies (v : Verdict) (p : TaskProg (Option ImpuRegDataTask)) : Prop :=
  verdictMonitor.Keeps (fun r _ => ∀ t, r = some t → t.httpRc = httpOk) v p

/-- A reply without a content. -/
theorem Noted.allows (h : t.Noted v) : v.Allows t.httpRc "" :=
  fun saa hsaa hfailed => ⟨h.httpRc saa hsaa hfailed, rfl⟩

/-- Nothing has failed if no failure is noted. -/
theorem Noted.allows_any (h : t.Noted v) (hrc : t.httpRc = httpOk) (rc : HttpCode) (content : String) :
    v.Allows rc content := by
  intro saa hsaa hfailed
  have hcode := h.httpRc saa hsaa hfailed
  rw [hrc] at hcode
  exact absurd (ResultCode.httpCode_eq_ok_iff.mp hcode.symm) hfailed

theorem replies_finish : Replies v finish := keeps_plain (by exact trivial) fun _ => .ret (by simp)

theorem replies_rejectWith {rc : HttpCode} (hfair : v.Fair) (hallows : v.Allows rc "") :
    Replies v (rejectWith rc) := keeps_httpReply hfair hallows fun _ => replies_finish

theorem keeps_sendReply_noted (h : t.Noted v) :
    verdictMonitor.Keeps (fun _ v' => v' = v) v t.sendReply := by
  unfold sendReply
  split
  · exact keeps_httpReply h.fair h.allows fun _ => .ret rfl
  · rename_i hrc
    exact keeps_plain (by exact trivial) fun built =>
      keeps_httpReply h.fair (h.allows_any (not_not.mp hrc) _ _) fun _ => .ret rfl

theorem replies_replyAndFinish (h : t.Noted v) : Replies v t.replyAndFinish :=
  (keeps_sendReply_noted h).bind fun _ _ hv => hv ▸ replies_finish

/-- A change of the cache. The verdict does not change meanwhile. -/
theorem replies_operation (h : t.Noted v) {σ : Type} {p : CacheProg (Status × σ)} (hp : Signals p)
    {request : CacheRequest} {progress success : Callback} (hprogress : (TaskCall.callback progress).Plain)
    (hsuccess : (TaskCall.callback success).Plain)
    {failureCb : Status → TaskProg (Option ImpuRegDataTask)}
    (hfailure : ∀ rc, Replies v (failureCb rc)) :
    Replies v (TaskProg.addWork request >>= fun _ =>
      p.interp (runCall (do TaskProg.callback progress; t.sendReply)) >>=
        HssCacheProcessor.done (do TaskProg.callback success; finish) failureCb) :=
  keeps_operation hp (R := fun _ => True) (fun _ _ _ => trivial) (passes_plain (by exact trivial))
    (keeps_plain hprogress fun _ => keeps_sendReply_noted h)
    (fun o => ⟨passes_plain (by exact trivial), passes_plain (by exact trivial)⟩)
    (keeps_plain hsuccess fun _ => replies_finish) fun r _ _ => hfailure r.1

theorem replies_putInCache (h : t.Noted v) (hrc : t.httpRc = httpOk) :
    Replies v (t.putInCache cfg irs) := by
  unfold putInCache
  split
  · exact replies_replyAndFinish h
  · exact replies_operation h (signals_putImplicitRegistrationSet cfg.cache irs) (by exact trivial)
      (by exact trivial) fun rc =>
        keeps_plain (by exact trivial) fun _ => replies_rejectWith h.fair (h.allows_any hrc _ _)

theorem replies_deleteFromCache (h : t.Noted v) : Replies v (t.deleteFromCache cfg irs) := by
  refine replies_operation h (signals_deleteImplicitRegistrationSet cfg.cache irs) (by exact trivial)
    (by exact trivial) fun rc => keeps_plain (by exact trivial) fun _ => ?_
  split
  · exact replies_replyAndFinish h
  · -- The error of the HSS goes before that of the store.
    by_cases hrc : t.httpRc = httpOk
    · exact replies_rejectWith h.fair (h.allows_any hrc _ _)
    · rw [if_neg hrc]
      exact replies_rejectWith h.fair h.allows

theorem replies_updateCache (h : t.Noted v)
    (hrc : saa.result = .success → t.httpRc = httpOk) : Replies v (t.updateCache cfg irs saa) := by
  unfold updateCache
  split
  · rename_i hcond
    exact replies_putInCache h (hrc hcond.1)
  · split
    · exact replies_deleteFromCache h
    · exact replies_replyAndFinish h

/-- `on_sar_response`, right after the SAA. -/
theorem replies_onSarResponse (hrc : t.httpRc = httpOk) (irs : Irs) (saa : ServerAssignmentAnswer) :
    Replies { saa := some saa } (t.onSarResponse cfg irs saa) := by
  -- The task that has noted the code of the SAA goes on, with a penalty or without.
  have hnoted : ∀ (t' : ImpuRegDataTask) penalised, t'.httpRc = saa.result.httpCode →
      (penalised = true ↔ saa.result = .timeout) →
      Replies { saa := some saa, penalised := penalised } (updateCache cfg t' irs saa) := by
    intro t' penalised hcode hfair
    refine replies_updateCache ⟨?_, ?_⟩ fun hsuccess => hcode.trans (by rw [hsuccess]; rfl)
    · simpa [Verdict.Fair] using hfair
    · rintro _ ⟨⟩ -
      exact hcode
  refine keeps_plain (by exact trivial) fun _ => ?_
  cases hresult : saa.result with
  | timeout =>
    refine .call fun _ => ⟨⟨rfl, saa, rfl, hresult⟩, ?_⟩
    exact hnoted _ true (by rw [hresult]; rfl) (by simp [hresult])
  | newWildcard =>
    show Replies _ (if t.wildcardId = saa.wildcardImpu then _ else _)
    split
    · exact hnoted _ false (by rw [hresult]; rfl) (by simp [hresult])
    · refine .ret ?_
      rintro _ ⟨⟩
      exact hrc
  | success => exact hnoted t false (by rw [hrc, hresult]; rfl) (by simp [hresult])
  | serverUnavailable | notFound | forbidden | assignmentType | unknownAuthScheme | unknown =>
    exact hnoted _ false (by rw [hresult]; rfl) (by simp [hresult])

theorem replies_sendSar (hrc : t.httpRc = httpOk) (irs : Irs) (type : ServerAssignmentType) :
    Replies v (t.sendSar cfg irs type) :=
  .call fun saa => ⟨trivial, replies_onSarResponse hrc irs saa⟩

/-- Without an SAA everything is noted. -/
theorem noted_empty : t.Noted {} := ⟨by simp [Verdict.Fair], by rintro _ ⟨⟩⟩

theorem replies_processReg (hrc : t.httpRc = httpOk) (irs : Irs) (newBinding : Bool) :
    Replies {} (t.processReg cfg irs newBinding) := by
  unfold processReg
  dsimp only
  split
  · split
    · exact replies_sendSar hrc _ _
    · split
      · exact replies_sendSar hrc _ _
      · exact replies_replyAndFinish noted_empty
  · exact replies_sendSar hrc _ _

theorem replies_processCall (hrc : t.httpRc = httpOk) (irs : Irs) :
    Replies {} (t.processCall cfg irs) := by
  unfold processCall
  split
  · exact replies_sendSar hrc _ _
  · exact replies_replyAndFinish noted_empty

theorem replies_processDereg (hrc : t.httpRc = httpOk) (irs : Irs) :
    Replies {} (t.processDereg cfg irs) := by
  unfold processDereg
  split
  · exact replies_sendSar hrc _ _
  · exact replies_rejectWith (by simp [Verdict.Fair]) (by rintro _ ⟨⟩)

theorem replies_processReceivedRegData (hrc : t.httpRc = httpOk) (irs : Irs) :
    Replies {} (t.processReceivedRegData cfg irs) := by
  unfold processReceivedRegData
  dsimp only
  split
  · exact replies_replyAndFinish noted_empty
  · split
    · exact replies_processReg (by exact hrc) _ _
    · split
      · exact replies_processCall (by exact hrc) _
      · split
        · exact replies_processDereg (by exact hrc) _
        · split
          · exact replies_sendSar (by exact hrc) _ _
          · exact replies_finish

/-- A round. Whatever was learned in the round before, the lookup starts afresh. -/
theorem replies_getRegData (hrc : t.httpRc = httpOk) : Replies v (t.getRegData cfg) := by
  refine keeps_lookedUp (only_getImplicitRegistrationSetForImpu cfg.cache t.publicId)
    (R := fun _ => True) (fun _ _ _ => trivial) (passes_plain (by exact trivial))
    (fun o _ => passes_plain (by exact trivial)) (fun irs _ => ?_) (fun rc => ?_)
  · exact .call fun _ => ⟨trivial, replies_processReceivedRegData hrc irs⟩
  · have hreject : ∀ rc, Replies {} (rejectWith rc) := fun rc =>
      replies_rejectWith (by simp [Verdict.Fair]) (by rintro _ ⟨⟩)
    refine .call fun _ => ⟨trivial, ?_⟩
    show Replies {} (if rc = .notFound then _ else _)
    split
    · split
      · exact keeps_plain (by exact trivial) fun _ => replies_processReceivedRegData hrc _
      · exact hreject _
    · exact hreject _

theorem keeps_run_verdict (cfg : RegDataConfig) (req : HttpRequest) :
    verdictMonitor.Keeps (fun _ _ => True) {} (run cfg req) := by
  have hrounds : verdictMonitor.Keeps (fun _ _ => True) {} ((ofRequest cfg req).rounds cfg) := by
    refine .bind (Monitor.Keeps.loop (Q := fun _ _ => True)
      (fun r _ => ∃ t : ImpuRegDataTask, r = some t ∧ t.httpRc = httpOk) ?_ ⟨_, rfl, rfl⟩)
      fun _ _ _ => .ret trivial
    rintro r v ⟨t, rfl, hrc⟩
    refine (replies_getRegData hrc).weaken fun r v hr => ?_
    cases r with
    | none => trivial
    | some t' => exact ⟨t', rfl, hr t' rfl⟩
  have hreject : ∀ rc, verdictMonitor.Keeps (fun _ _ => True) {}
      (do TaskProg.sendHttpReply rc ""; TaskProg.deleteThis) := fun rc =>
    keeps_httpReply (by simp [Verdict.Fair]) (by rintro _ ⟨⟩) fun _ =>
      keeps_plain (by exact trivial) fun _ => .ret trivial
  unfold run
  cases req.method with
  | put =>
    show Monitor.Keeps _ _ _ (if (ofRequest cfg req).type = .unknown then _ else _)
    split
    · exact hreject _
    · exact hrounds
  | get => exact hrounds
  | other => exact hreject _

end ImpuRegDataTask

/-- Every run of a reg-data task, finished or not. When it replies, a penalty was recorded exactly if
the SAA timed out, and the code of an SAA that failed is the code of the reply, without a content.
A penalty is recorded for an SAA that timed out, and once. -/
theorem failure_decides_reply (cfg : RegDataConfig) (req : HttpRequest) (hs : TaskHistory)
    (h : Begins (ImpuRegDataTask.run cfg req) hs) :
    (∀ pre rc content post, hs = pre ++ ⟨.sendHttpReply rc content, ()⟩ :: post →
      ((verdict pre).penalised = true ↔
        ∃ saa, (verdict pre).saa = some saa ∧ saa.result = .timeout) ∧
      ∀ saa, (verdict pre).saa = some saa → saa.result ≠ .success →
        rc = saa.result.httpCode ∧ content = "") ∧
    (∀ pre post, hs = pre ++ ⟨.recordPenalty, ()⟩ :: post →
      (verdict pre).penalised = false ∧
        ∃ saa, (verdict pre).saa = some saa ∧ saa.result = .timeout) :=
  ⟨fun _ _ _ _ hsplit => (ImpuRegDataTask.keeps_run_verdict cfg req).begins h hsplit,
    fun _ _ hsplit => (ImpuRegDataTask.keeps_run_verdict cfg req).begins h hsplit⟩

/-- The HSS does not answer the SAR in time. -/
def timeoutCalls : TaskHistory :=
  callRound "" "sip:d@example.com" { result := .timeout } ++ [⟨.recordPenalty, ()⟩]

def timeoutHistory : TaskHistory :=
  timeoutCalls ++ [⟨.sendHttpReply httpGatewayTimeout "", ()⟩, ⟨.deleteThis, ()⟩]

theorem begins_timeoutHistory :
    Begins (ImpuRegDataTask.run exampleConfig exampleRequest) timeoutHistory :=
  (Ran.unroll (.call (.call (.call (.call (.call (.call (.call (.call (.call (.ret _)))))))))) :
    Ran (ImpuRegDataTask.run exampleConfig exampleRequest) timeoutHistory ()).begins

theorem failure_decides_reply_timeout :
    (verdict timeoutCalls).penalised = true ∧
      httpGatewayTimeout = ResultCode.timeout.httpCode := by
  obtain ⟨hpenalty, hcode⟩ := (failure_decides_reply exampleConfig exampleRequest timeoutHistory
    begins_timeoutHistory).1 timeoutCalls httpGatewayTimeout "" [⟨.deleteThis, ()⟩] rfl
  exact ⟨hpenalty.mpr ⟨_, rfl, rfl⟩, (hcode { result := .timeout } rfl (by decide)).1⟩

/-! ### The two connections -/

/-- The SAAs of a run, in order. -/
def saas (hs : TaskHistory) : List ServerAssignmentAnswer :=
  hs.filterMap fun
    | ⟨.sendServerAssignmentRequest _, saa⟩ => some saa
    | _ => none

/-- Another SAR is sent only after an SAA that names a wildcard. The state is the last SAA. -/
def retryMonitor : Monitor TaskCall TaskCall.Resp (Option ServerAssignmentAnswer) where
  permits last
    | .sendServerAssignmentRequest _ => ∀ saa, last = some saa → saa.result = .newWildcard
    | _ => True
  step last
    | ⟨.sendServerAssignmentRequest _, saa⟩ => some saa
    | _ => last

namespace ImpuRegDataTask

variable {cfg : RegDataConfig} {t : ImpuRegDataTask} {last : Option ServerAssignmentAnswer}

theorem unwatched_retryMonitor : Unwatched retryMonitor := by
  intro last o ho
  cases o with
  | sendServerAssignmentRequest request => exact ho.elim
  | _ => exact ⟨trivial, fun _ => rfl⟩

theorem queues_retry (request : CacheRequest) : Queues retryMonitor last request :=
  ⟨trivial, fun _ => ⟨trivial, fun _ => rfl⟩⟩

/-- The task may send an SAR. -/
def MayAsk (_ : ImpuRegDataTask) (last : Option ServerAssignmentAnswer) : Prop :=
  ∀ saa, last = some saa → saa.result = .newWildcard

theorem retries_processReceivedRegData (h : t.MayAsk last) (irs : Irs) :
    Leaves retryMonitor MayAsk last (t.processReceivedRegData cfg irs) := by
  have hM := unwatched_retryMonitor
  have hcases := processed cfg t irs
  generalize t.processReceivedRegData cfg irs = p at hcases ⊢
  cases hcases with
  | reply _ _ => exact leaves_replyAndFinish hM
  | reject _ _ => exact leaves_rejectWith hM _
  | sar _ _ _ _ =>
    refine .call fun saa => ⟨h, leaves_onSarResponse hM
      (fun _ t' _ => leaves_updateCache hM (fun _ _ _ => queues_retry _) fun _ _ => queues_retry _)
      fun hrenamed => ?_⟩
    rintro _ ⟨⟩
    exact hrenamed.1
  | unreachable _ _ => exact leaves_finish hM

theorem keeps_run_retry (cfg : RegDataConfig) (req : HttpRequest) :
    retryMonitor.Keeps (fun _ _ => True) none (run cfg req) :=
  keeps_run_of_leaves unwatched_retryMonitor
    (fun t last (h : t.MayAsk last) => leaves_getRegData unwatched_retryMonitor (R := fun _ => True)
      (fun _ _ _ => trivial) (fun irs _ => ⟨trivial, retries_processReceivedRegData h irs⟩)
      fun _ => ⟨trivial, fun _ _ => retries_processReceivedRegData h _⟩)
    (by rintro _ ⟨⟩)

end ImpuRegDataTask

theorem saas_snoc (hs : TaskHistory) (e : Event TaskCall TaskCall.Resp) :
    saas (hs ++ [e]) = saas hs ++ saas [e] := List.filterMap_append

/-- The monitor's state is the last SAA, and all SAAs before it name a wildcard. -/
theorem newWildcard_of_mem_dropLast_saas {hs : TaskHistory}
    (h : ∀ pre e post, hs = pre ++ e :: post →
      retryMonitor.permits (retryMonitor.after none pre) e.1) :
    retryMonitor.after none hs = (saas hs).getLast? ∧
      ∀ saa ∈ (saas hs).dropLast, saa.result = .newWildcard := by
  induction hs using List.reverseRecOn with
  | nil => exact ⟨rfl, by simp [saas]⟩
  | append_singleton hs e ih =>
    obtain ⟨hlast, hall⟩ := ih fun pre e' post hsplit => h pre e' (post ++ [e]) (by simp [hsplit])
    have hpermits := h hs e [] rfl
    rw [saas_snoc, Monitor.after_append]
    obtain ⟨o, r⟩ := e
    cases o with
    | sendServerAssignmentRequest request =>
      obtain ⟨new, rfl⟩ : ∃ new : ServerAssignmentAnswer, new = r := ⟨r, rfl⟩
      have hone : saas [⟨.sendServerAssignmentRequest request, new⟩] = [new] := rfl
      rw [hone, List.getLast?_concat, List.dropLast_concat]
      refine ⟨rfl, fun saa hmem => ?_⟩
      -- What was the last SAA before this one is the one that let it be asked for.
      cases hl : (saas hs).getLast? with
      | none => simp [List.getLast?_eq_none_iff.mp hl] at hmem
      | some last =>
        rw [← List.dropLast_append_getLast? last hl, List.mem_append, List.mem_singleton] at hmem
        rcases hmem with hmem | rfl
        · exact hall saa hmem
        · exact hpermits saa (hlast.trans hl)
    | _ => exact ⟨hlast.trans (by simp [saas]), by simpa [saas] using hall⟩

/-- Every SAA of the run comes from one of `connections`. -/
def SaasFrom (connections : Set HssConnection) (hs : TaskHistory) : Prop :=
  ∀ request saa, ⟨.sendServerAssignmentRequest request, saa⟩ ∈ hs →
    ∃ conn ∈ connections, saa = conn.sendServerAssignmentRequest request

theorem mem_saas {hs : TaskHistory} {saa : ServerAssignmentAnswer} :
    saa ∈ saas hs ↔ ∃ request, ⟨.sendServerAssignmentRequest request, saa⟩ ∈ hs := by
  constructor
  · intro hmem
    obtain ⟨⟨o, r⟩, he, hsaa⟩ := List.mem_filterMap.mp hmem
    cases o with
    | sendServerAssignmentRequest request =>
      obtain rfl : r = saa := Option.some.inj hsaa
      exact ⟨request, he⟩
    | _ => simp at hsaa
  · rintro ⟨request, he⟩
    exact List.mem_filterMap.mpr ⟨_, he, rfl⟩

/-- The SAA of a verdict is one of the run. -/
theorem mem_saas_of_verdict {hs : TaskHistory} {saa : ServerAssignmentAnswer}
    (h : (verdict hs).saa = some saa) : saa ∈ saas hs := by
  induction hs using List.reverseRecOn with
  | nil => simp [verdict] at h
  | append_singleton hs e ih =>
    rw [saas_snoc, List.mem_append]
    have hstep : ((verdict hs).step e).saa = some saa := by
      simpa [verdict, List.foldl_append] using h
    obtain ⟨o, r⟩ := e
    cases o with
    | sendServerAssignmentRequest request =>
      obtain rfl : r = saa := Option.some.inj hstep
      exact .inr (List.mem_singleton_self _)
    | callback cb =>
      cases cb with
      | onGetRegDataSuccess irs => simp [Verdict.step] at hstep
      | onGetRegDataFailure rc => simp [Verdict.step] at hstep
      | _ => exact .inl (ih hstep)
    | _ => exact .inl (ih hstep)

/-- `create_answer` of a SAR has no branch for an HSS that is too busy. -/
theorem DiameterHssConnection.serverAssignmentAnswer_ne_timeout (rsp : CxMessage) :
    (serverAssignmentAnswer rsp).result ≠ .timeout := by
  unfold serverAssignmentAnswer
  dsimp only
  split_ifs <;> simp

theorem DiameterHssConnection.sendServerAssignmentRequest_ne_timeout (conn : DiameterHssConnection)
    (hss : CxMessage → Option CxMessage) (request : ServerAssignmentRequest) :
    ((conn.toHss hss).sendServerAssignmentRequest request).result ≠ .timeout := by
  cases hrsp : hss (conn.serverAssignmentRequest request) with
  | none => simp [toHss, hrsp]
  | some rsp => simpa [toHss, hrsp] using serverAssignmentAnswer_ne_timeout rsp

theorem HsProvHssConnection.serverAssignmentAnswer_ne_newWildcard
    (data : Except CassandraError HsProvStore.GetRegData) :
    (serverAssignmentAnswer data).result ≠ .newWildcard := by
  rcases data with (_ | _) | data <;> simp [serverAssignmentAnswer, CassandraError.resultCode]

theorem HsProvHssConnection.sendServerAssignmentRequest_ne_newWildcard (conn : HsProvHssConnection)
    (request : ServerAssignmentRequest) :
    (conn.toDatabase.sendServerAssignmentRequest request).result ≠ .newWildcard := by
  have hanswer := serverAssignmentAnswer_ne_newWildcard
    (HsProvStore.GetRegData.perform conn.haGetColumns request.impu)
  unfold toDatabase
  dsimp only
  split
  · exact hanswer
  · exact hanswer
  · exact hanswer
  · simp

/-- Every run of a reg-data task, finished or not. If its SAAs come over Diameter, it records no
penalty, whatever the HSS answers and when. If they come from the database of homestead-prov, it
sends one SAR at most. -/
theorem connection_limits (cfg : RegDataConfig) (req : HttpRequest) (hs : TaskHistory)
    (h : Begins (ImpuRegDataTask.run cfg req) hs) :
    (∀ conn : DiameterHssConnection, SaasFrom (Set.range conn.toHss) hs →
      ⟨.recordPenalty, ()⟩ ∉ hs) ∧
    (SaasFrom (Set.range HsProvHssConnection.toDatabase) hs → (saas hs).length ≤ 1) := by
  constructor
  · intro conn hfrom hpenalty
    obtain ⟨pre, post, rfl⟩ := List.append_of_mem hpenalty
    obtain ⟨-, saa, hsaa, htimeout⟩ := (ImpuRegDataTask.keeps_run_verdict cfg req).begins h rfl
    obtain ⟨request, he⟩ := mem_saas.mp (mem_saas_of_verdict hsaa)
    obtain ⟨_, ⟨hss, rfl⟩, rfl⟩ := hfrom request saa (List.mem_append_left _ he)
    exact conn.sendServerAssignmentRequest_ne_timeout hss request htimeout
  · intro hfrom
    by_contra hlong
    have hnonempty : (saas hs).dropLast ≠ [] := by
      intro hnil
      have hlength := congrArg List.length hnil
      rw [List.length_dropLast, List.length_nil] at hlength
      omega
    obtain ⟨saa, hmem⟩ := List.exists_mem_of_ne_nil _ hnonempty
    have hrenamed := (newWildcard_of_mem_dropLast_saas fun pre e post hsplit =>
      (ImpuRegDataTask.keeps_run_retry cfg req).begins h hsplit).2 saa hmem
    obtain ⟨request, he⟩ := mem_saas.mp (List.dropLast_subset _ hmem)
    obtain ⟨_, ⟨conn, rfl⟩, rfl⟩ := hfrom request saa he
    exact conn.sendServerAssignmentRequest_ne_newWildcard request hrenamed

/-- A connection over Diameter. -/
def wildcardDiameter : DiameterHssConnection where
  destRealm := "example.com"
  destHost := "hss.example.com"
  schemes := { digest := "SIP Digest", akav1 := "Digest-AKAv1-MD5", akav2 := "Digest-AKAv2-SHA-256" }
  base64Encode := id
  hex := id

/-- The HSS answers that the identity is that of a wildcard. -/
def renamedAnswer (_ : CxMessage) : Option CxMessage :=
  Cx.serverAssignmentAnswer 0 vendorId3gpp diameterErrorInAssignmentType "" {}
    "sip:w!.*!@example.com"

/-- A database that is down. -/
def exampleDatabase : HsProvHssConnection where
  serverName := "sip:scscf.example.com"
  schemes := wildcardDiameter.schemes
  haGetColumns := fun _ _ _ => .error .other

theorem connection_limits_examples :
    ⟨.recordPenalty, ()⟩ ∉ wildcardHistory ∧ (saas timeoutHistory).length ≤ 1 := by
  constructor
  · refine (connection_limits exampleConfig exampleRequest wildcardHistory
      ran_wildcardHistory.begins).1 wildcardDiameter fun request saa hmem => ?_
    have hsaas : saa ∈ [{ result := .newWildcard, wildcardImpu := "sip:w!.*!@example.com" },
        { result := .serverUnavailable }] := mem_saas.mpr ⟨request, hmem⟩
    -- The HSS is not there when it is asked again.
    rcases List.mem_pair.mp hsaas with rfl | rfl
    · exact ⟨_, ⟨renamedAnswer, rfl⟩, rfl⟩
    · exact ⟨_, ⟨fun _ => none, rfl⟩, rfl⟩
  · refine (connection_limits exampleConfig exampleRequest timeoutHistory
      begins_timeoutHistory).2 fun request saa hmem => ?_
    refine ⟨_, ⟨exampleDatabase, rfl⟩, ?_⟩
    -- Of the calls of the run, one is an SAR.
    rcases hmem with _ | ⟨_, _ | ⟨_, _ | ⟨_, _ | ⟨_, _ | ⟨_, hmem⟩⟩⟩⟩⟩
    · rfl
    · rcases hmem with _ | ⟨_, _ | ⟨_, _ | ⟨_, _ | ⟨_, hnil⟩⟩⟩⟩
      cases hnil

end Homestead

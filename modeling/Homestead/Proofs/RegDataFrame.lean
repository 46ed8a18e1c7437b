import Homestead.Proofs.OneAnswer
import Homestead.Proofs.RegDataRuns

/-!
# `Homestead.Proofs.RegDataFrame`: which reg-data requests change the cache

`ImpuRegDataTask` changes its IRS before it knows the answer of the HSS, and may go round the
lookup and the SAR any number of times. `Seen` is what a run has seen last: the IRS that the
lookup found, and the SAR with its answer. `changeMonitor` says when the task may queue a put or
a delete, and that no store is written before it does. Every function of the task keeps it.

`regData_frame` says so for every run, and that the other requests leave the stores as they are.
-/

set_option autoImplicit false

namespace Homestead

/-- What a run of the task has seen: the IRS that the last lookup found, the SAR after it with
its answer, and whether a put or a delete was queued. -/
structure Seen where
  found : Option Irs := none
  saa : Option (ServerAssignmentRequest × ServerAssignmentAnswer) := none
  changing : Bool := false

def Seen.step (seen : Seen) : Event TaskCall TaskCall.Resp → Seen
  | ⟨.callback (.onGetRegDataSuccess irs), _⟩ => { seen with found := some irs, saa := none }
  | ⟨.callback (.onGetRegDataFailure _), _⟩ => { seen with found := none, saa := none }
  | ⟨.sendServerAssignmentRequest request, saa⟩ => { seen with saa := some (request, saa) }
  | ⟨.addWork (.putIrs _), _⟩ => { seen with changing := true }
  | ⟨.addWork (.deleteIrs _), _⟩ => { seen with changing := true }
  | _ => seen

/-- What a run has seen. -/
def seen (hs : TaskHistory) : Seen := hs.foldl Seen.step {}

/-- The HSS names a wildcard that was not on the SAR, and the task starts over. -/
def Retried (request : ServerAssignmentRequest) (saa : ServerAssignmentAnswer) : Prop :=
  saa.result = .newWildcard ∧ saa.wildcardImpu ≠ request.wildcardImpu

/-- A put follows a successful SAR for a registration or a call. -/
def MayPut (type : RequestType) (seen : Seen) : Prop :=
  (type = .reg ∨ type = .call) ∧
    ∃ request saa, seen.saa = some (request, saa) ∧ saa.result = .success

/-- A delete follows an SAR for a deregistration, and is of the IRS that was found. -/
def MayDelete (type : RequestType) (seen : Seen) (irs : Irs) : Prop :=
  type.isDeregistrationRequest = true ∧
    (∃ irs₀, seen.found = some irs₀ ∧ irs = irs₀.setRegState .notRegistered) ∧
    ∃ request saa, seen.saa = some (request, saa) ∧ saa.result ≠ .serverUnavailable ∧
      ¬ Retried request saa

/-- When the task may change the cache, and that it writes no store before. -/
def changeMonitor (type : RequestType) : Monitor TaskCall TaskCall.Resp Seen where
  permits seen
    | .addWork (.putIrs _) => MayPut type seen
    | .addWork (.deleteIrs irs) => MayDelete type seen irs
    | .addWork (.getIrsForImpu _) => True
    | .addWork _ => False
    | .store call => call.IsRead ∨ seen.changing = true
    | _ => True
  step := Seen.step

namespace ImpuRegDataTask

variable {type : RequestType} {cfg : RegDataConfig} {t : ImpuRegDataTask} {s : Seen}

/-- A function of the task is left with no put or delete queued if the task starts over. -/
def Unchanged (type : RequestType) (r : Option ImpuRegDataTask) (s : Seen) : Prop :=
  ∀ t, r = some t → t.type = type ∧ s.changing = false

/-- A function of the task, entered at `s`. -/
abbrev Frames (type : RequestType) (s : Seen) (p : TaskProg (Option ImpuRegDataTask)) : Prop :=
  (changeMonitor type).Keeps (Unchanged type) s p

theorem unwatched_changeMonitor (type : RequestType) : Unwatched (changeMonitor type) := by
  intro seen o ho
  cases o with
  | store call => exact ⟨.inl ho, fun _ => rfl⟩
  | addWork request =>
    cases request with
    | getIrsForImpu impu => exact ⟨trivial, fun _ => rfl⟩
    | _ => exact ho.elim
  | callback cb =>
    cases cb with
    | onGetRegDataSuccess irs => exact ho.elim
    | onGetRegDataFailure rc => exact ho.elim
    | _ => exact ⟨trivial, fun _ => rfl⟩
  | sendServerAssignmentRequest request => exact ho.elim
  | _ => exact ⟨trivial, fun _ => rfl⟩

/-- A change that may be queued lets the task write the stores. -/
theorem queues_change {request : CacheRequest}
    (hmay : (changeMonitor type).permits s (.addWork request))
    (hstep : s.step ⟨.addWork request, ()⟩ = { s with changing := true }) :
    Queues (changeMonitor type) s request := by
  refine ⟨hmay, fun o => ⟨.inr ?_, fun _ => rfl⟩⟩
  show (s.step ⟨.addWork request, ()⟩).changing = true
  rw [hstep]

/-- The IRS that goes with an SAR: that of a deregistration is the one that was found. -/
def Holds (type : RequestType) (s : Seen) (irs : Irs) : Prop :=
  type.isDeregistrationRequest = true →
    ∃ irs₀, s.found = some irs₀ ∧ irs = irs₀.setRegState .notRegistered

theorem frames_updateCache {irs : Irs} {request : ServerAssignmentRequest}
    {saa : ServerAssignmentAnswer} (htype : t.type = type) (hknown : type ≠ .unknown)
    (hirs : Holds type s irs) (hsaa : s.saa = some (request, saa)) (hnew : ¬ Retried request saa) :
    Frames type s (t.updateCache cfg irs saa) := by
  refine leaves_updateCache (unwatched_changeMonitor type) ?_ ?_
  · intro hsuccess hdereg hauth
    rw [htype] at hdereg hauth
    refine queues_change ⟨?_, request, saa, hsaa, hsuccess⟩ rfl
    -- What is neither a deregistration nor an authentication failure.
    cases htype' : type with
    | unknown => exact absurd htype' hknown
    | reg => exact .inl rfl
    | call => exact .inr rfl
    | deregUser | deregAdmin | deregTimeout =>
      rw [htype'] at hdereg
      cases hdereg
    | deregAuthFail | deregAuthTimeout =>
      rw [htype'] at hauth
      cases hauth
  · intro hdereg havailable
    rw [htype] at hdereg
    exact queues_change ⟨hdereg, hirs hdereg, request, saa, hsaa, havailable, hnew⟩ rfl

/-- A task that starts over has queued nothing. -/
theorem frames_onSarResponse {irs : Irs} {request : ServerAssignmentRequest}
    {saa : ServerAssignmentAnswer} (htype : t.type = type) (hknown : type ≠ .unknown)
    (hirs : Holds type s irs) (hsaa : s.saa = some (request, saa)) (hchanging : s.changing = false)
    (hwildcard : request.wildcardImpu = t.wildcardId) :
    Frames type s (t.onSarResponse cfg irs saa) := by
  refine leaves_onSarResponse (unwatched_changeMonitor type) (fun hsame t' ht' => ?_)
    fun _ => ⟨htype, hchanging⟩
  refine frames_updateCache (ht'.trans htype) hknown hirs hsaa fun hretried => hsame ⟨hretried.1, ?_⟩
  rw [← hwildcard]
  exact hretried.2.symm

theorem frames_sendSar {irs : Irs} {sarType : ServerAssignmentType} (htype : t.type = type)
    (hknown : type ≠ .unknown) (hirs : Holds type s irs) (hchanging : s.changing = false) :
    Frames type s (t.sendSar cfg irs sarType) :=
  .call fun _ => ⟨trivial, frames_onSarResponse htype hknown hirs rfl hchanging rfl⟩

/-- The IRS was found, or it is new and nobody is registered. -/
theorem frames_processReceivedRegData {irs : Irs} (htype : t.type = type)
    (hchanging : s.changing = false)
    (hfound : s.found = some irs ∨ irs.registrationState = .notRegistered) :
    Frames type s (t.processReceivedRegData cfg irs) := by
  have hM := unwatched_changeMonitor type
  have hcases := processed cfg t irs
  generalize t.processReceivedRegData cfg irs = p at hcases ⊢
  cases hcases with
  | reply _ _ => exact leaves_replyAndFinish hM
  | reject _ _ => exact leaves_rejectWith hM _
  | sar hsame _ hknown hdereg =>
    refine frames_sendSar (hsame.type.trans htype) (htype ▸ hknown) (fun hdereg' => ?_) hchanging
    obtain ⟨rfl, hstate⟩ := hdereg (htype ▸ hdereg')
    rcases hfound with hfound | hnew
    · exact ⟨irs, hfound, rfl⟩
    · -- A deregistration of a new IRS is rejected.
      exact absurd hnew hstate
  | unreachable _ _ => exact leaves_finish hM

theorem frames_getRegData (htype : t.type = type) (hchanging : s.changing = false) :
    Frames type s (t.getRegData cfg) :=
  leaves_getRegData (unwatched_changeMonitor type) (R := fun _ => True) (fun _ _ _ => trivial)
    (fun _ _ => ⟨trivial, frames_processReceivedRegData htype hchanging (.inl rfl)⟩)
    fun _ => ⟨trivial, fun _ _ => frames_processReceivedRegData htype hchanging (.inr rfl)⟩

/-- A round that starts over has changed nothing. -/
theorem keeps_run_frame (cfg : RegDataConfig) (req : HttpRequest) :
    (changeMonitor (ofRequest cfg req).type).Keeps (fun _ _ => True) {} (run cfg req) :=
  keeps_run_of_leaves (unwatched_changeMonitor _)
    (fun (t : ImpuRegDataTask) (s : Seen)
      (h : t.type = (ofRequest cfg req).type ∧ s.changing = false) => frames_getRegData h.1 h.2)
    ⟨rfl, rfl⟩

end ImpuRegDataTask

/-- The SAR that a run has seen last is in the run. -/
theorem mem_of_seen_saa {hs : TaskHistory} {request : ServerAssignmentRequest}
    {saa : ServerAssignmentAnswer} (h : (seen hs).saa = some (request, saa)) :
    ⟨.sendServerAssignmentRequest request, saa⟩ ∈ hs := by
  induction hs using List.reverseRecOn with
  | nil => cases h
  | append_singleton hs e ih =>
    unfold seen at h ih
    rw [List.foldl_append] at h
    obtain ⟨o, r⟩ := e
    have hkept : ((hs.foldl Seen.step {}).step ⟨o, r⟩).saa = some (request, saa) →
        (hs.foldl Seen.step {}).saa = some (request, saa) ∨
          (⟨o, r⟩ : Event TaskCall TaskCall.Resp) = ⟨.sendServerAssignmentRequest request, saa⟩ := by
      intro h
      cases o with
      | sendServerAssignmentRequest request' =>
        obtain ⟨rfl, rfl⟩ := Prod.mk.inj (Option.some.inj h)
        exact .inr rfl
      | callback cb => cases cb <;> first | exact .inl h | cases h
      | addWork work => cases work <;> exact .inl h
      | _ => exact .inl h
    rcases hkept h with h | h
    · exact List.mem_append_left _ (ih h)
    · rw [h]
      exact List.mem_append_right _ List.mem_cons_self

/-- No put or delete was queued before if none is in the run. -/
theorem seen_changing {hs : TaskHistory} (hput : ∀ irs, ⟨.addWork (.putIrs irs), ()⟩ ∉ hs)
    (hdelete : ∀ irs, ⟨.addWork (.deleteIrs irs), ()⟩ ∉ hs) : (seen hs).changing = false := by
  induction hs using List.reverseRecOn with
  | nil => rfl
  | append_singleton hs e ih =>
    have hrest : (seen hs).changing = false :=
      ih (fun irs hmem => hput irs (List.mem_append_left _ hmem))
        fun irs hmem => hdelete irs (List.mem_append_left _ hmem)
    unfold seen at hrest ⊢
    rw [List.foldl_append]
    obtain ⟨o, r⟩ := e
    cases o with
    | addWork work =>
      cases work with
      | putIrs irs => exact absurd (List.mem_append_right _ List.mem_cons_self) (hput irs)
      | deleteIrs irs => exact absurd (List.mem_append_right _ List.mem_cons_self) (hdelete irs)
      | _ => exact hrest
    | callback cb => cases cb <;> exact hrest
    | _ => exact hrest

/-- The requests that change nothing: a `GET`, a request without an SAR, an authentication
failure, a registration or a call without a successful SAR, and a deregistration whose SARs find
the HSS unavailable or are tried again. -/
def ChangesNothing (req : HttpRequest) (type : RequestType) (hs : TaskHistory) : Prop :=
  req.method = .get ∨ (∀ request saa, ⟨.sendServerAssignmentRequest request, saa⟩ ∉ hs) ∨
    type.isAuthFailureRequest = true ∨
    ((type = .reg ∨ type = .call) ∧ ∀ request (saa : ServerAssignmentAnswer),
      ⟨.sendServerAssignmentRequest request, saa⟩ ∈ hs → saa.result ≠ .success) ∨
    (type.isDeregistrationRequest = true ∧ ∀ request (saa : ServerAssignmentAnswer),
      ⟨.sendServerAssignmentRequest request, saa⟩ ∈ hs →
        saa.result = .serverUnavailable ∨ Retried request saa)

/-- A request that changes nothing has no occasion to put. -/
theorem ChangesNothing.not_mayPut {cfg : RegDataConfig} {req : HttpRequest} {hs pre : TaskHistory}
    (h : ChangesNothing req (ImpuRegDataTask.ofRequest cfg req).type hs) (hsub : ∀ e ∈ pre, e ∈ hs) :
    ¬ MayPut (ImpuRegDataTask.ofRequest cfg req).type (seen pre) := by
  rintro ⟨htype, request, saa, hsaa, hsuccess⟩
  have hmem := hsub _ (mem_of_seen_saa hsaa)
  rcases h with hget | hnone | hauth | ⟨-, hfails⟩ | ⟨hdereg, -⟩
  · have hunknown : (ImpuRegDataTask.ofRequest cfg req).type = .unknown := by
      simp [ImpuRegDataTask.ofRequest, hget]
    rw [hunknown] at htype
    rcases htype with h | h <;> cases h
  · exact hnone request saa hmem
  · rcases htype with h | h <;> rw [h] at hauth <;> cases hauth
  · exact hfails request saa hmem hsuccess
  · rcases htype with h | h <;> rw [h] at hdereg <;> cases hdereg

theorem ChangesNothing.not_mayDelete {cfg : RegDataConfig} {req : HttpRequest}
    {hs pre : TaskHistory} (h : ChangesNothing req (ImpuRegDataTask.ofRequest cfg req).type hs)
    (hsub : ∀ e ∈ pre, e ∈ hs) (irs : Irs) :
    ¬ MayDelete (ImpuRegDataTask.ofRequest cfg req).type (seen pre) irs := by
  rintro ⟨htype, -, request, saa, hsaa, havailable, hnew⟩
  have hmem := hsub _ (mem_of_seen_saa hsaa)
  rcases h with hget | hnone | hauth | ⟨hreg, -⟩ | ⟨-, hfails⟩
  · have hunknown : (ImpuRegDataTask.ofRequest cfg req).type = .unknown := by
      simp [ImpuRegDataTask.ofRequest, hget]
    rw [hunknown] at htype
    cases htype
  · exact hnone request saa hmem
  · generalize (ImpuRegDataTask.ofRequest cfg req).type = type at htype hauth
    cases type <;> first | exact absurd htype (by decide) | exact absurd hauth (by decide)
  · rcases hreg with h | h <;> rw [h] at htype <;> cases htype
  · rcases hfails request saa hmem with hunavailable | hretried
    · exact havailable hunavailable
    · exact hnew hretried

/-- Every run of `ImpuRegDataTask`, finished or not. A put follows a successful SAR for a
registration or a call. A delete follows an SAR for a deregistration that neither found the HSS
unavailable nor is tried again, and is of the IRS that the lookup found. The requests that change
nothing leave every store as it is. -/
theorem regData_frame (cfg : RegDataConfig) (req : HttpRequest) (hs : TaskHistory) (w : World)
    (h : Begins (ImpuRegDataTask.run cfg req) hs) :
    (∀ pre irs post, hs = pre ++ ⟨.addWork (.putIrs irs), ()⟩ :: post →
      MayPut (ImpuRegDataTask.ofRequest cfg req).type (seen pre)) ∧
    (∀ pre irs post, hs = pre ++ ⟨.addWork (.deleteIrs irs), ()⟩ :: post →
      MayDelete (ImpuRegDataTask.ofRequest cfg req).type (seen pre) irs) ∧
    (ChangesNothing req (ImpuRegDataTask.ofRequest cfg req).type hs → w.afterTask hs = w) := by
  have hkeeps := ImpuRegDataTask.keeps_run_frame cfg req
  have hput : ∀ pre irs post, hs = pre ++ ⟨.addWork (.putIrs irs), ()⟩ :: post →
      MayPut (ImpuRegDataTask.ofRequest cfg req).type (seen pre) :=
    fun pre irs post hsplit => hkeeps.begins h hsplit
  have hdelete : ∀ pre irs post, hs = pre ++ ⟨.addWork (.deleteIrs irs), ()⟩ :: post →
      MayDelete (ImpuRegDataTask.ofRequest cfg req).type (seen pre) irs :=
    fun pre irs post hsplit => hkeeps.begins h hsplit
  refine ⟨hput, hdelete, fun hnothing => World.afterTask_of_reads w fun call r hmem => ?_⟩
  -- Nothing was queued, so the monitor permits only reads.
  obtain ⟨pre, post, hsplit⟩ := List.append_of_mem hmem
  have hsub : ∀ {pre post : TaskHistory}, hs = pre ++ post → ∀ e ∈ pre, e ∈ hs := by
    rintro pre post rfl e he
    exact List.mem_append_left _ he
  have hpre : (seen pre).changing = false := by
    refine seen_changing (fun irs hqueued => ?_) fun irs hqueued => ?_
    · obtain ⟨pre', post', rfl⟩ := List.append_of_mem hqueued
      have hsplit' : hs = pre' ++ ⟨.addWork (.putIrs irs), ()⟩ ::
        (post' ++ ⟨.store call, r⟩ :: post) := by rw [hsplit]; simp
      exact hnothing.not_mayPut (hsub hsplit') (hput pre' irs _ hsplit')
    · obtain ⟨pre', post', rfl⟩ := List.append_of_mem hqueued
      have hsplit' : hs = pre' ++ ⟨.addWork (.deleteIrs irs), ()⟩ ::
        (post' ++ ⟨.store call, r⟩ :: post) := by rw [hsplit]; simp
      exact hnothing.not_mayDelete (hsub hsplit') irs (hdelete pre' irs _ hsplit')
  have hpermits : call.IsRead ∨ (seen pre).changing = true := hkeeps.begins h hsplit
  rcases hpermits with hread | hchanging
  · exact hread
  · rw [hpre] at hchanging
    cases hchanging

/-- The result of an SAR. -/
def saaResult? : Event TaskCall TaskCall.Resp → Option ResultCode
  | ⟨.sendServerAssignmentRequest _, saa⟩ => some (ServerAssignmentAnswer.result saa)
  | _ => none

/-- A call whose SARs fail leaves the stores as they are. -/
theorem regData_frame_wildcard :
    ChangesNothing exampleRequest (ImpuRegDataTask.ofRequest exampleConfig exampleRequest).type
        wildcardHistory ∧
      (World.ofTables [] []).afterTask wildcardHistory = World.ofTables [] [] := by
  have hnothing : ChangesNothing exampleRequest
      (ImpuRegDataTask.ofRequest exampleConfig exampleRequest).type wildcardHistory := by
    refine .inr (.inr (.inr (.inl ⟨.inr (by decide), fun request saa hmem => ?_⟩)))
    have hresult : some saa.result ∈ wildcardHistory.map saaResult? := List.mem_map_of_mem hmem
    have hresults : ∀ r ∈ wildcardHistory.map saaResult?, r ≠ some .success := by decide
    exact fun hsuccess => hresults _ hresult (congrArg some hsuccess)
  exact ⟨hnothing, (regData_frame exampleConfig exampleRequest wildcardHistory _
    ran_wildcardHistory.begins).2.2 hnothing⟩

end Homestead

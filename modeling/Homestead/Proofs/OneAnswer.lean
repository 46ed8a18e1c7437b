import Homestead.Proofs.RegDataSteps
import Homestead.Model.DiameterTasks
import Homestead.Proofs.TaskRuns
import Mathlib.Data.List.Induction

/-!
# `Homestead.Proofs.OneAnswer`: exactly one answer per request

The answer to a request is sent in one of about twenty places, some of them in callbacks of the
cache. `answerMonitor` says what a task may do at each stage: it answers once, then it is
destroyed, and then nothing runs on it any more. Each function of the tasks keeps it, from the
stage it is entered at to the stage it leaves, and `one_answer` reads the monitor off the runs.
-/

set_option autoImplicit false

namespace Homestead

/-- The three kinds of answers. -/
inductive AnswerKind
  | httpReply
  | rta
  | ppa
  deriving DecidableEq, Repr

/-- The kind of answer that a call sends. -/
def TaskCall.answer? : TaskCall → Option AnswerKind
  | .sendHttpReply _ _ => some .httpReply
  | .sendRta _ _ => some .rta
  | .sendPpa _ => some .ppa
  | _ => none

/-- How far a task is. -/
inductive Stage
  | waiting
  | answered
  | destroyed
  deriving DecidableEq, Repr

/-- A task answers once and with its own kind of answer, is destroyed after that, and does
nothing then. -/
def answerMonitor (kind : AnswerKind) : Monitor TaskCall TaskCall.Resp Stage where
  permits stage o := stage ≠ .destroyed ∧
    (∀ k, o.answer? = some k → k = kind ∧ stage = .waiting) ∧ (o = .deleteThis → stage = .answered)
  step stage e := match e.1 with
    | .sendHttpReply _ _ | .sendRta _ _ | .sendPpa _ => .answered
    | .deleteThis => .destroyed
    | _ => stage

section Stages

variable {kind : AnswerKind} {stage : Stage} {α : Type} {Q : α → Stage → Prop}

/-- A call that is neither an answer nor `delete this`. -/
def TaskCall.Quiet (o : TaskCall) : Prop := o.answer? = none ∧ o ≠ .deleteThis

theorem passes_quiet {o : TaskCall} (ho : o.Quiet) (hstage : stage ≠ .destroyed) :
    Passes (answerMonitor kind) stage o := by
  refine ⟨⟨hstage, fun k hk => ?_, fun hdelete => absurd hdelete ho.2⟩, fun r => ?_⟩
  · rw [ho.1] at hk
    cases hk
  · cases o with
    | sendHttpReply rc content => cases ho.1
    | sendRta result impis => cases ho.1
    | sendPpa result => cases ho.1
    | deleteThis => exact absurd rfl ho.2
    | _ => rfl

theorem quiet_store (o : Call) : (TaskCall.store o).Quiet := ⟨rfl, by simp⟩

theorem quiet_addWork (request : CacheRequest) : (TaskCall.addWork request).Quiet := ⟨rfl, by simp⟩

theorem quiet_callback (cb : Callback) : (TaskCall.callback cb).Quiet := ⟨rfl, by simp⟩

/-- The answer of the task. -/
theorem keeps_answer {o : TaskCall} (ho : o.answer? = some kind) {k : o.Resp → TaskProg α}
    (hk : ∀ r, (answerMonitor kind).Keeps Q .answered (k r)) :
    (answerMonitor kind).Keeps Q .waiting (.call o k) := by
  refine .call_to ⟨by decide, fun k hk => ?_, ?_⟩ (fun r => ?_) hk
  · rw [ho] at hk
    exact ⟨(Option.some.inj hk).symm, rfl⟩
  · rintro rfl
    cases ho
  · cases o with
    | sendHttpReply rc content => rfl
    | sendRta result impis => rfl
    | sendPpa result => rfl
    | _ => cases ho

theorem keeps_deleteThis {k : Unit → TaskProg α} (hk : (answerMonitor kind).Keeps Q .destroyed (k ())) :
    (answerMonitor kind).Keeps Q .answered (TaskProg.deleteThis >>= k) :=
  .call_to ⟨by decide, by simp [TaskCall.answer?], fun _ => rfl⟩ (fun _ => rfl) fun _ => hk

theorem keeps_deleteThis_last :
    (answerMonitor kind).Keeps (fun _ stage => stage = .destroyed) .answered TaskProg.deleteThis :=
  keeps_deleteThis (k := .ret) (.ret rfl)

/-- The entry of a callback. -/
theorem keeps_callback {cb : Callback} {k : Unit → TaskProg α} (hstage : stage ≠ .destroyed)
    (hk : (answerMonitor kind).Keeps Q stage (k ())) :
    (answerMonitor kind).Keeps Q stage (TaskProg.callback cb >>= k) :=
  (passes_quiet (quiet_callback cb) hstage).keeps fun _ => hk

/-- An operation whose progress callback takes the task from `stage` to `stage'`. -/
theorem keeps_changing {σ : Type} {p : CacheProg (Status × σ)} (hp : Signals p) {stage' : Stage}
    (hstage : stage ≠ .destroyed) (hstage' : stage' ≠ .destroyed) {request : CacheRequest}
    {progressCb : TaskProg Unit} {successCb : TaskProg α} {failureCb : Status → TaskProg α}
    (hprogress : (answerMonitor kind).Keeps (fun _ s => s = stage') stage progressCb)
    (hsuccess : (answerMonitor kind).Keeps Q stage' successCb)
    (hfailure : ∀ rc, (answerMonitor kind).Keeps Q stage (failureCb rc)) :
    (answerMonitor kind).Keeps Q stage (TaskProg.addWork request >>= fun _ =>
      p.interp (runCall progressCb) >>= HssCacheProcessor.done successCb failureCb) :=
  keeps_operation hp (R := fun _ => True) (fun _ _ _ => trivial)
    (passes_quiet (quiet_addWork request) hstage) hprogress
    (fun o => ⟨passes_quiet (quiet_store o) hstage, passes_quiet (quiet_store o) hstage'⟩) hsuccess
    fun r _ _ => hfailure r.1

end Stages

namespace ImpuRegDataTask

/-- What `run` checks before it starts: a `PUT` has a known type. -/
def Ready (t : ImpuRegDataTask) : Prop := t.req.method = .get ∨ t.type ≠ .unknown

/-- What a function of the task leaves: a destroyed task, or one that starts over and has not
answered. -/
def Ended (r : Option ImpuRegDataTask) (stage : Stage) : Prop :=
  r = none ∧ stage = .destroyed ∨ ∃ t, r = some t ∧ t.Ready ∧ stage = .waiting

/-- A function of the task, entered before the answer. -/
abbrev Finishes (p : TaskProg (Option ImpuRegDataTask)) : Prop :=
  (answerMonitor .httpReply).Keeps Ended .waiting p

variable {cfg : RegDataConfig} (t : ImpuRegDataTask)

theorem keeps_finish : (answerMonitor .httpReply).Keeps Ended .answered finish :=
  keeps_deleteThis (.ret (.inl ⟨rfl, rfl⟩))

theorem keeps_sendReply :
    (answerMonitor .httpReply).Keeps (fun _ s => s = .answered) .waiting t.sendReply := by
  unfold sendReply
  split
  · exact keeps_answer rfl fun _ => .ret rfl
  · exact (passes_quiet ⟨rfl, by simp⟩ (by decide)).keeps fun _ =>
      keeps_answer rfl fun _ => .ret rfl

theorem finishes_rejectWith (rc : HttpCode) : Finishes (rejectWith rc) :=
  keeps_answer rfl fun _ => keeps_finish

theorem finishes_replyAndFinish : Finishes t.replyAndFinish :=
  t.keeps_sendReply.bind fun _ _ hstage => hstage ▸ keeps_finish

theorem finishes_putInCache (irs : Irs) : Finishes (t.putInCache cfg irs) := by
  unfold putInCache
  split
  · exact t.finishes_replyAndFinish
  · exact keeps_changing (signals_putImplicitRegistrationSet cfg.cache irs) (by decide) (by decide)
      (keeps_callback (by decide) t.keeps_sendReply) (keeps_callback (by decide) keeps_finish)
      fun rc => keeps_callback (by decide) (finishes_rejectWith _)

theorem finishes_deleteFromCache (irs : Irs) : Finishes (t.deleteFromCache cfg irs) := by
  refine keeps_changing (signals_deleteImplicitRegistrationSet cfg.cache irs) (by decide) (by decide)
    (keeps_callback (by decide) t.keeps_sendReply) (keeps_callback (by decide) keeps_finish)
    fun rc => keeps_callback (by decide) ?_
  split
  · exact t.finishes_replyAndFinish
  · exact finishes_rejectWith _

theorem finishes_updateCache (irs : Irs) (saa : ServerAssignmentAnswer) :
    Finishes (t.updateCache cfg irs saa) := by
  unfold updateCache
  split
  · exact t.finishes_putInCache _
  · split
    · exact t.finishes_deleteFromCache irs
    · exact t.finishes_replyAndFinish

variable {t}

theorem finishes_onSarResponse (hready : t.Ready) (irs : Irs) (saa : ServerAssignmentAnswer) :
    Finishes (t.onSarResponse cfg irs saa) := by
  refine keeps_callback (by decide) ?_
  split
  case h_4 =>
    -- A new wildcard is the one way to start over, and the task has not answered yet.
    show Finishes (if _ then _ else _)
    split
    · exact finishes_updateCache _ irs saa
    · exact .ret (.inr ⟨_, rfl, hready, rfl⟩)
  case h_5 =>
    exact (passes_quiet ⟨rfl, by simp⟩ (by decide)).keeps fun _ => finishes_updateCache _ irs saa
  all_goals exact finishes_updateCache _ irs saa

theorem finishes_sendSar (hready : t.Ready) (irs : Irs) (type : ServerAssignmentType) :
    Finishes (t.sendSar cfg irs type) :=
  (passes_quiet ⟨rfl, by simp⟩ (by decide)).keeps fun _ => finishes_onSarResponse hready irs _

theorem finishes_processReceivedRegData (hready : t.Ready) (irs : Irs) :
    Finishes (t.processReceivedRegData cfg irs) := by
  have hcases := processed cfg t irs
  generalize t.processReceivedRegData cfg irs = p at hcases ⊢
  cases hcases with
  | reply _ _ => exact finishes_replyAndFinish _
  | reject _ _ => exact finishes_rejectWith _
  | sar hsame _ htype _ => exact finishes_sendSar (.inr (hsame.type ▸ htype)) _ _
  | unreachable hmethod htype =>
    -- `run` has refused an unknown type.
    rcases hready with h | h
    · exact absurd h hmethod
    · exact absurd htype h

theorem finishes_getRegData (hready : t.Ready) : Finishes (t.getRegData cfg) := by
  refine keeps_lookedUp (only_getImplicitRegistrationSetForImpu cfg.cache t.publicId)
    (R := fun _ => True) (fun _ _ _ => trivial) (passes_quiet (quiet_addWork _) (by decide))
    (fun o _ => passes_quiet (quiet_store o) (by decide)) (fun irs _ => ?_) (fun rc => ?_)
  · exact keeps_callback (by decide) (finishes_processReceivedRegData hready irs)
  · refine keeps_callback (by decide) ?_
    split
    · split
      · exact (passes_quiet ⟨rfl, by simp⟩ (by decide)).keeps fun _ =>
          finishes_processReceivedRegData hready _
      · exact finishes_rejectWith _
    · exact finishes_rejectWith _

/-- The loop: a round that starts over has not answered. -/
theorem keeps_rounds (hready : t.Ready) :
    (answerMonitor .httpReply).Keeps (fun _ stage => stage = .destroyed) .waiting (t.rounds cfg) := by
  refine .bind (Monitor.Keeps.loop (Q := fun _ stage => stage = .destroyed)
    (fun r stage => ∃ t : ImpuRegDataTask, r = some t ∧ t.Ready ∧ stage = .waiting) ?_
    ⟨t, rfl, hready, rfl⟩) fun _ stage hstage => .ret hstage
  rintro r stage ⟨t, rfl, hready, rfl⟩
  refine (finishes_getRegData hready).weaken fun r stage hended => ?_
  rcases hended with ⟨rfl, hstage⟩ | ⟨t', rfl, hready', hstage⟩
  · exact hstage
  · exact ⟨t', rfl, hready', hstage⟩

/-- The whole task. -/
theorem keeps_run (cfg : RegDataConfig) (req : HttpRequest) :
    (answerMonitor .httpReply).Keeps (fun _ stage => stage = .destroyed) .waiting (run cfg req) := by
  unfold run
  cases hmethod : req.method with
  | put =>
    show Monitor.Keeps _ _ _ (if (ofRequest cfg req).type = .unknown then _ else _)
    split
    · exact keeps_answer rfl fun _ => keeps_deleteThis_last
    · rename_i htype
      exact keeps_rounds (.inr htype)
  | get => exact keeps_rounds (.inl hmethod)
  | other => exact keeps_answer rfl fun _ => keeps_deleteThis_last

end ImpuRegDataTask

theorem ImpuReadRegDataTask.keeps_run (cfg : RegDataConfig) (req : HttpRequest) :
    (answerMonitor .httpReply).Keeps (fun _ stage => stage = .destroyed) .waiting (run cfg req) := by
  unfold run
  split
  · exact keeps_answer rfl fun _ => keeps_deleteThis_last
  · exact ImpuRegDataTask.keeps_run cfg req

namespace RegistrationTerminationTask

/-- A function of the task, entered before the answer. -/
abbrev Finishes (p : TaskProg Unit) : Prop :=
  (answerMonitor .rta).Keeps (fun _ stage => stage = .destroyed) .waiting p

variable (cache : MemcachedCache) (rtr : Rtr)

theorem keeps_notifySprout (ids : List String) :
    (answerMonitor .rta).Keeps (fun _ stage => stage = .waiting) .waiting (notifySprout rtr ids) := by
  have hcall : ∀ notify ids impis, (answerMonitor .rta).Keeps (fun _ stage => stage = .waiting) .waiting
      (TaskProg.deregisterBindings notify ids impis) :=
    fun _ _ _ => (passes_quiet ⟨rfl, by simp⟩ (by decide)).keeps fun _ => .ret rfl
  unfold notifySprout
  split
  · exact hcall _ _ _
  · split
    · exact hcall _ _ _
    · split
      · exact hcall _ _ _
      · exact .ret rfl

theorem finishes_getRegistrationSetsSuccess (regSets : List Irs) :
    Finishes (getRegistrationSetsSuccess cache rtr regSets) := by
  refine keeps_callback (by decide) ?_
  split
  · exact keeps_answer rfl fun _ => keeps_deleteThis_last
  · -- The cache is changed after the answer, and its callbacks do not answer again.
    refine (keeps_notifySprout rtr _).bind fun retCode stage hstage => ?_
    subst hstage
    have hprogress : (answerMonitor .rta).Keeps (fun _ stage => stage = .answered) .answered
        deleteRegSetsProgress :=
      (passes_quiet (quiet_callback _) (by decide)).keeps fun _ => .ret rfl
    exact keeps_answer rfl fun _ =>
      keeps_changing (signals_deleteImplicitRegistrationSets cache regSets) (by decide) (by decide)
        hprogress (keeps_callback (by decide) keeps_deleteThis_last)
        fun rc => keeps_callback (by decide) keeps_deleteThis_last

theorem finishes_getRegistrationSetsFailure (rc : Status) :
    Finishes (getRegistrationSetsFailure rtr rc) :=
  keeps_callback (by decide) (keeps_answer rfl fun _ => keeps_deleteThis_last)

theorem keeps_run : Finishes (run cache rtr) := by
  unfold run
  dsimp only
  split
  · exact keeps_lookedUpAll (only_getImplicitRegistrationSetsForImpis cache _ _)
      (passes_quiet (quiet_addWork _) (by decide))
      (fun o _ => passes_quiet (quiet_store o) (by decide))
      (finishes_getRegistrationSetsSuccess cache rtr) (finishes_getRegistrationSetsFailure rtr)
  · split
    · exact keeps_lookedUpAll (only_getImplicitRegistrationSetsForImpus cache _ _)
        (passes_quiet (quiet_addWork _) (by decide))
        (fun o _ => passes_quiet (quiet_store o) (by decide))
        (finishes_getRegistrationSetsSuccess cache rtr) (finishes_getRegistrationSetsFailure rtr)
    · exact keeps_answer rfl fun _ => keeps_deleteThis_last

end RegistrationTerminationTask

namespace PushProfileTask

/-- A function of the task, entered before the answer. -/
abbrev Finishes (p : TaskProg Unit) : Prop :=
  (answerMonitor .ppa).Keeps (fun _ stage => stage = .destroyed) .waiting p

variable (px : XmlParser) (cache : MemcachedCache) (ppr : Ppr)

theorem finishes_failure : Finishes (TaskProg.sendPpa .failure >>= fun _ => TaskProg.deleteThis) :=
  keeps_answer rfl fun _ => keeps_deleteThis_last

theorem finishes_saveImsSub (imsSub : ImsSubscription) : Finishes (saveImsSub cache ppr imsSub) :=
  keeps_changing (signals_putImsSubscription cache _) (by decide) (by decide)
    (keeps_callback (by decide) (keeps_answer rfl fun _ => .ret rfl))
    (keeps_callback (by decide) keeps_deleteThis_last)
    fun rc => keeps_callback (by decide) finishes_failure

theorem finishes_onGetImsSubSuccess (imsSub : ImsSubscription) :
    Finishes (onGetImsSubSuccess px cache ppr imsSub) := by
  refine keeps_callback (by decide) ?_
  split
  · exact finishes_saveImsSub cache ppr imsSub
  · dsimp only
    split
    · exact finishes_failure
    · refine (passes_quiet ⟨rfl, by simp⟩ (by decide)).keeps fun (rc : HttpCode) => ?_
      show Finishes (if rc ≠ httpOk then _ else _)
      split
      · exact finishes_failure
      · exact finishes_saveImsSub cache ppr _

theorem keeps_run : Finishes (run px cache ppr) := by
  unfold run
  split
  · exact keeps_answer rfl fun _ => keeps_deleteThis_last
  · exact keeps_lookedUp (only_getImsSubscription cache ppr.impi) (R := fun _ => True)
      (fun _ _ _ => trivial) (passes_quiet (quiet_addWork _) (by decide))
      (fun o _ => passes_quiet (quiet_store o) (by decide))
      (fun imsSub _ => finishes_onGetImsSubSuccess px cache ppr imsSub)
      fun rc => keeps_callback (by decide) finishes_failure

end PushProfileTask

/-! ### Every run -/

/-- A request with the task that handles it. -/
inductive TaskRequest
  | regData (cfg : RegDataConfig) (req : HttpRequest)
  | readRegData (cfg : RegDataConfig) (req : HttpRequest)
  | registrationTermination (cache : MemcachedCache) (rtr : Rtr)
  | pushProfile (px : XmlParser) (cache : MemcachedCache) (ppr : Ppr)

def TaskRequest.run : TaskRequest → TaskProg Unit
  | .regData cfg req => ImpuRegDataTask.run cfg req
  | .readRegData cfg req => ImpuReadRegDataTask.run cfg req
  | .registrationTermination cache rtr => RegistrationTerminationTask.run cache rtr
  | .pushProfile px cache ppr => PushProfileTask.run px cache ppr

/-- The answer that the request gets. -/
def TaskRequest.kind : TaskRequest → AnswerKind
  | .regData _ _ => .httpReply
  | .readRegData _ _ => .httpReply
  | .registrationTermination _ _ => .rta
  | .pushProfile _ _ _ => .ppa

theorem TaskRequest.keeps_run (request : TaskRequest) :
    (answerMonitor request.kind).Keeps (fun _ stage => stage = .destroyed) .waiting request.run := by
  cases request with
  | regData cfg req => exact ImpuRegDataTask.keeps_run cfg req
  | readRegData cfg req => exact ImpuReadRegDataTask.keeps_run cfg req
  | registrationTermination cache rtr => exact RegistrationTerminationTask.keeps_run cache rtr
  | pushProfile px cache ppr => exact PushProfileTask.keeps_run px cache ppr

/-- How many answers were sent. -/
def answers (hs : TaskHistory) : Nat := hs.countP fun e => e.1.answer?.isSome

/-- What has happened when a task is at a stage. -/
inductive Reaches : Stage → TaskHistory → Prop
  | waiting {hs : TaskHistory} (hanswers : answers hs = 0) (hlive : ∀ e ∈ hs, e.1 ≠ .deleteThis) :
      Reaches .waiting hs
  | answered {hs : TaskHistory} (hanswers : answers hs = 1) (hlive : ∀ e ∈ hs, e.1 ≠ .deleteThis) :
      Reaches .answered hs
  | destroyed {pre : TaskHistory} (hanswers : answers pre = 1)
      (hlive : ∀ e ∈ pre, e.1 ≠ .deleteThis) : Reaches .destroyed (pre ++ [⟨.deleteThis, ()⟩])

theorem answers_snoc (hs : TaskHistory) (e : Event TaskCall TaskCall.Resp) :
    answers (hs ++ [e]) = answers hs + if e.1.answer?.isSome then 1 else 0 := by
  unfold answers
  rw [List.countP_append, List.countP_singleton]

theorem live_snoc {hs : TaskHistory} (hlive : ∀ e ∈ hs, e.1 ≠ .deleteThis)
    {e : Event TaskCall TaskCall.Resp} (he : e.1 ≠ .deleteThis) :
    ∀ e' ∈ hs ++ [e], e'.1 ≠ .deleteThis := by
  intro e' he'
  rcases List.mem_append.mp he' with he' | he'
  · exact hlive e' he'
  · rw [List.mem_singleton.mp he']
    exact he

/-- One permitted call. -/
theorem Reaches.step {kind : AnswerKind} {stage : Stage} {hs : TaskHistory}
    {e : Event TaskCall TaskCall.Resp} (h : Reaches stage hs)
    (hpermits : (answerMonitor kind).permits stage e.1) :
    Reaches ((answerMonitor kind).step stage e) (hs ++ [e]) := by
  obtain ⟨hne, hanswer, hdelete⟩ := hpermits
  obtain ⟨o, r⟩ := e
  -- A call that is neither an answer nor `delete this` leaves the stage as it is.
  by_cases hquiet : o.Quiet
  · rw [(passes_quiet hquiet hne).2]
    have hcount : answers (hs ++ [⟨o, r⟩]) = answers hs := by
      rw [answers_snoc, show o.answer? = none from hquiet.1]
      rfl
    cases h with
    | waiting hanswers hlive => exact .waiting (hcount.trans hanswers) (live_snoc hlive hquiet.2)
    | answered hanswers hlive => exact .answered (hcount.trans hanswers) (live_snoc hlive hquiet.2)
    | destroyed _ _ => exact absurd rfl hne
  · -- An answer is permitted in the first stage only, and `delete this` in the second.
    cases hkind : o.answer? with
    | some k =>
      obtain ⟨-, rfl⟩ := hanswer k hkind
      cases h with
      | waiting hanswers hlive =>
        have hcount : answers (hs ++ [⟨o, r⟩]) = 1 := by
          rw [answers_snoc, hanswers, show o.answer? = some k from hkind]
          rfl
        have hnot : o ≠ .deleteThis := by
          rintro rfl
          cases hkind
        cases o with
        | sendHttpReply rc content => exact .answered hcount (live_snoc hlive hnot)
        | sendRta result impis => exact .answered hcount (live_snoc hlive hnot)
        | sendPpa result => exact .answered hcount (live_snoc hlive hnot)
        | _ => cases hkind
    | none =>
      have ho : o = .deleteThis := not_not.mp fun hnot => hquiet ⟨hkind, hnot⟩
      subst ho
      obtain rfl := hdelete rfl
      cases h with
      | answered hanswers hlive => exact .destroyed hanswers hlive

/-- Every history of permitted calls. -/
theorem reaches_of_permits {kind : AnswerKind} {hs : TaskHistory}
    (h : ∀ pre e post, hs = pre ++ e :: post →
      (answerMonitor kind).permits ((answerMonitor kind).after .waiting pre) e.1) :
    Reaches ((answerMonitor kind).after .waiting hs) hs := by
  induction hs using List.reverseRecOn with
  | nil => exact .waiting rfl (by simp)
  | append_singleton hs e ih =>
    rw [Monitor.after_append]
    refine (ih fun pre e' post hsplit => h pre e' (post ++ [e]) ?_).step (h hs e [] rfl)
    rw [hsplit]
    simp

/-- Every run of a task, whatever the stores, the HSS and Sprout answer: an unfinished run has
sent at most one answer, of the kind that the request gets, and a run in which the task is
destroyed has sent it before and ends there. A finished run has sent one answer, and ends with
the destruction of the task. -/
theorem one_answer (request : TaskRequest) (hs : TaskHistory) :
    (Begins request.run hs → answers hs ≤ 1 ∧
      (∀ e ∈ hs, ∀ kind, e.1.answer? = some kind → kind = request.kind) ∧
      ∀ pre post, hs = pre ++ ⟨.deleteThis, ()⟩ :: post → answers pre = 1 ∧ post = []) ∧
    (Ran request.run hs () → answers hs = 1 ∧ ∃ pre, hs = pre ++ [⟨.deleteThis, ()⟩] ∧
      ∀ e ∈ pre, e.1 ≠ .deleteThis) := by
  have hkeeps := request.keeps_run
  have hpermits : ∀ {hs}, Begins request.run hs → ∀ pre e post, hs = pre ++ e :: post →
      (answerMonitor request.kind).permits ((answerMonitor request.kind).after .waiting pre) e.1 :=
    fun h pre e post hsplit => hkeeps.begins h hsplit
  constructor
  · intro h
    have hreaches := reaches_of_permits (hpermits h)
    refine ⟨?_, fun e he kind hkind => ?_, fun pre post hsplit => ?_⟩
    · generalize (answerMonitor request.kind).after .waiting hs = stage at hreaches
      cases hreaches with
      | waiting hanswers _ => omega
      | answered hanswers _ => omega
      | destroyed hanswers _ => rw [answers_snoc, hanswers]; decide
    · obtain ⟨pre, post, hsplit⟩ := List.append_of_mem he
      exact ((hpermits h pre e post hsplit).2.1 kind hkind).1
    · -- Nothing is permitted once the task is destroyed.
      have hbefore := hpermits h pre _ post hsplit
      have hpre : Reaches ((answerMonitor request.kind).after .waiting pre) pre :=
        reaches_of_permits fun pre' e post' hsplit' =>
          hpermits h pre' e (post' ++ ⟨.deleteThis, ()⟩ :: post) (by rw [hsplit, hsplit']; simp)
      rw [hbefore.2.2 rfl] at hpre
      refine ⟨by cases hpre; assumption, ?_⟩
      cases post with
      | nil => rfl
      | cons e post =>
        have hafter := hpermits h (pre ++ [⟨.deleteThis, ()⟩]) e post (by rw [hsplit]; simp)
        rw [Monitor.after_append] at hafter
        exact absurd rfl hafter.1
  · intro h
    -- A finished run is at the last stage.
    have hreaches := reaches_of_permits (hpermits h.begins)
    rw [hkeeps.ran h] at hreaches
    cases hreaches with
    | destroyed hanswers hlive =>
      refine ⟨?_, _, rfl, hlive⟩
      rw [answers_snoc, hanswers]
      decide

/-- A deployment with one store, whose parser of bodies knows the body of a call. -/
def exampleConfig : RegDataConfig where
  cache := oneStore
  hssReregistrationTime := 3600
  recordTtl := 7200
  supportSharedIfcs := true
  configuredServerName := "sip:scscf.example.com"
  px := .ofTable []
  privateId := fun _ => none
  json := fun body => if body = "call" then some (.object [("reqtype", .string "call")]) else none
  urlUnescape := id

/-- A call for a subscriber who is not known. -/
def exampleRequest : HttpRequest where
  method := .put
  fullPath := "/impu/sip:d@example.com/reg-data"
  privateId := ""
  body := "call"
  cacheControl := ""

/-- A round of the call: the cache has no record, and the HSS answers `saa`. -/
def callRound (wildcard key : String) (saa : ServerAssignmentAnswer) : TaskHistory :=
  [⟨.addWork (.getIrsForImpu key), ()⟩,
   ⟨.store (.getImpu 0 key), (Status.notFound, (none : Option Impu))⟩,
   ⟨.callback (.onGetRegDataFailure .notFound), ()⟩,
   ⟨.createImplicitRegistrationSet, ((0 : Int), RegistrationState.unknown)⟩,
   ⟨.sendServerAssignmentRequest
      { impi := "", impu := "sip:d@example.com", serverName := "sip:scscf.example.com",
        type := .unregisteredUser, supportSharedIfcs := true, wildcardImpu := wildcard }, saa⟩,
   ⟨.callback (.onSarResponse saa), ()⟩]

/-- The HSS names a wildcard, and is not available when it is asked again. -/
def wildcardHistory : TaskHistory :=
  callRound "" "sip:d@example.com"
      { result := .newWildcard, wildcardImpu := "sip:w!.*!@example.com" } ++
    callRound "sip:w!.*!@example.com" "sip:w!.*!@example.com" { result := .serverUnavailable } ++
    [⟨.sendHttpReply httpServerUnavailable "", ()⟩, ⟨.deleteThis, ()⟩]

theorem ran_wildcardHistory :
    Ran (ImpuRegDataTask.run exampleConfig exampleRequest) wildcardHistory () :=
  .unroll (.call (.call (.call (.call (.call (.call (.unroll (.call (.call (.call (.call (.call
    (.call (.call (.call (.ret _))))))))))))))))

theorem one_answer_wildcard :
    Ran (TaskRequest.run (.regData exampleConfig exampleRequest)) wildcardHistory () ∧
      answers wildcardHistory = 1 :=
  ⟨ran_wildcardHistory,
    ((one_answer (.regData exampleConfig exampleRequest) wildcardHistory).2 ran_wildcardHistory).1⟩

end Homestead

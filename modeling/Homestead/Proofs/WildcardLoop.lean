import Homestead.Proofs.OneAnswer
import Homestead.Proofs.RegDataRuns
import Mathlib.Data.List.Perm.Subperm

/-!
# `Homestead.Proofs.WildcardLoop`: the wildcards that one task asks the HSS about

An SAA may name a wildcard, and the task starts over with it. `on_sar_response` compares it with
the wildcard in use, to avoid looping. That is the last one, so the HSS can lead a task through the
same wildcards again and again.

`sarWildcards_eq` reads the wildcards of the SARs off the SAAs, for every run: the first one is
Sprout's, and each SAA but the last names the next one. `sar_wildcards_distinct_iff` says when no
SAR is sent twice, and `sars_without_end` is an HSS that names two wildcards in turn.
-/

set_option autoImplicit false

namespace Homestead

/-- The wildcard of an SAR. -/
def sarWildcard : Event TaskCall TaskCall.Resp → Option String
  | ⟨.sendServerAssignmentRequest request, _⟩ => some request.wildcardImpu
  | _ => none

/-- The wildcard of an SAA, which is empty if it names none. -/
def saaWildcard : Event TaskCall TaskCall.Resp → Option String
  | ⟨.sendServerAssignmentRequest _, (saa : ServerAssignmentAnswer)⟩ => some saa.wildcardImpu
  | _ => none

/-- The wildcards of the SARs of a run, in order. -/
def sarWildcards (hs : TaskHistory) : List String := hs.filterMap sarWildcard

/-- The wildcards of its SAAs, in order. -/
def saaWildcards (hs : TaskHistory) : List String := hs.filterMap saaWildcard

/-- The wildcards of the SAAs that another SAR followed. -/
def namedWildcards (hs : TaskHistory) : List String := (saaWildcards hs).dropLast

/-- The wildcard that a task uses when the HSS has named `wildcard` last: an empty one gives way to
Sprout's. -/
def inUse (sproutWildcard wildcard : String) : String :=
  if wildcard = "" then sproutWildcard else wildcard

/-- The SAR that a task sends has the wildcard in use. The state is that wildcard. -/
def wildcardMonitor (sproutWildcard : String) : Monitor TaskCall TaskCall.Resp String where
  permits wildcard
    | .sendServerAssignmentRequest request => request.wildcardImpu = wildcard
    | _ => True
  step wildcard e := ((saaWildcard e).map (inUse sproutWildcard)).getD wildcard

namespace ImpuRegDataTask

variable {cfg : RegDataConfig} {t : ImpuRegDataTask} {sproutWildcard wildcard : String}

/-- The task has been told of `wildcard`. -/
structure Uses (sproutWildcard wildcard : String) (t : ImpuRegDataTask) : Prop where
  sprout : t.sproutWildcard = sproutWildcard
  wildcardId : t.wildcardId = wildcard

/-- A function of the task is left with the wildcard in use if the task starts over. -/
abbrev Asks (sproutWildcard wildcard : String) (p : TaskProg (Option ImpuRegDataTask)) : Prop :=
  (wildcardMonitor sproutWildcard).Keeps
    (fun r wildcard => ∀ t, r = some t → Uses sproutWildcard wildcard t) wildcard p

/-- A call other than an SAR. -/
theorem passes_wildcard {o : TaskCall} (ho : ∀ request, o ≠ .sendServerAssignmentRequest request) :
    Passes (wildcardMonitor sproutWildcard) wildcard o := by
  cases o with
  | sendServerAssignmentRequest request => exact absurd rfl (ho request)
  | _ => exact ⟨trivial, fun _ => rfl⟩

theorem unwatched_wildcardMonitor (sproutWildcard : String) :
    Unwatched (wildcardMonitor sproutWildcard) := by
  intro wildcard o ho
  refine passes_wildcard fun request heq => ?_
  rw [heq] at ho
  exact ho

/-- Only the SARs are watched, so every change of the cache may be queued. -/
theorem queues_wildcard (request : CacheRequest) :
    Queues (wildcardMonitor sproutWildcard) wildcard request :=
  ⟨trivial, fun _ => passes_wildcard nofun⟩

/-- The task that starts over uses the wildcard of the SAA. -/
theorem asks_onSarResponse (irs : Irs) (saa : ServerAssignmentAnswer)
    (hsprout : t.sproutWildcard = sproutWildcard)
    (hsaa : inUse sproutWildcard saa.wildcardImpu = wildcard) :
    Asks sproutWildcard wildcard (t.onSarResponse cfg irs saa) := by
  have hM := unwatched_wildcardMonitor sproutWildcard
  refine leaves_onSarResponse hM
    (fun _ t' _ => leaves_updateCache hM (fun _ _ _ => queues_wildcard _)
      fun _ _ => queues_wildcard _) fun _ => ⟨hsprout, ?_⟩
  show (if saa.wildcardImpu = "" then t.sproutWildcard else saa.wildcardImpu) = wildcard
  rw [hsprout]
  exact hsaa

theorem asks_processReceivedRegData (h : Uses sproutWildcard wildcard t) (irs : Irs) :
    Asks sproutWildcard wildcard (t.processReceivedRegData cfg irs) := by
  have hM := unwatched_wildcardMonitor sproutWildcard
  have hcases := processed cfg t irs
  generalize t.processReceivedRegData cfg irs = p at hcases ⊢
  cases hcases with
  | reply _ _ => exact leaves_replyAndFinish hM
  | reject _ _ => exact leaves_rejectWith hM _
  | @sar t' irs' type hsame _ _ _ =>
    refine .call fun saa => ⟨?_, ?_⟩
    · show t'.wildcardId = wildcard
      unfold wildcardId
      rw [hsame.hssWildcard, hsame.sproutWildcard]
      exact h.wildcardId
    · exact asks_onSarResponse irs' saa (hsame.sproutWildcard.trans h.sprout) rfl
  | unreachable _ _ => exact leaves_finish hM

theorem asks_getRegData (h : Uses sproutWildcard wildcard t) :
    Asks sproutWildcard wildcard (t.getRegData cfg) :=
  leaves_getRegData (unwatched_wildcardMonitor sproutWildcard) (R := fun _ => True)
    (fun _ _ _ => trivial) (fun irs _ => ⟨trivial, asks_processReceivedRegData h irs⟩)
    fun _ => ⟨trivial, fun _ _ => asks_processReceivedRegData h _⟩

/-- A task starts with Sprout's wildcard. -/
theorem keeps_run_wildcard (cfg : RegDataConfig) (req : HttpRequest) :
    (wildcardMonitor (cfg.wildcardFromBody req.body)).Keeps (fun _ _ => True)
      (cfg.wildcardFromBody req.body) (run cfg req) :=
  keeps_run_of_leaves (unwatched_wildcardMonitor _)
    (fun t wildcard (h : Uses (cfg.wildcardFromBody req.body) wildcard t) => asks_getRegData h)
    ⟨rfl, rfl⟩

end ImpuRegDataTask

/-! ### The wildcards of a run -/

/-- A call adds the same number of wildcards to both lists. -/
theorem wildcards_snoc (hs : TaskHistory) (e : Event TaskCall TaskCall.Resp) :
    sarWildcards (hs ++ [e]) = sarWildcards hs ++ (sarWildcard e).toList ∧
      saaWildcards (hs ++ [e]) = saaWildcards hs ++ (saaWildcard e).toList := by
  unfold sarWildcards saaWildcards
  rw [List.filterMap_append, List.filterMap_append]
  constructor
  · cases he : sarWildcard e <;> simp [he]
  · cases he : saaWildcard e <;> simp [he]

/-- The wildcards of the SARs and then the one in use: Sprout's, and one for each SAA. -/
theorem sarWildcards_after {sproutWildcard : String} {hs : TaskHistory}
    (h : ∀ pre e post, hs = pre ++ e :: post → (wildcardMonitor sproutWildcard).permits
      ((wildcardMonitor sproutWildcard).after sproutWildcard pre) e.1) :
    sarWildcards hs ++ [(wildcardMonitor sproutWildcard).after sproutWildcard hs]
      = sproutWildcard :: (saaWildcards hs).map (inUse sproutWildcard) := by
  induction hs using List.reverseRecOn with
  | nil => rfl
  | append_singleton hs e ih =>
    have hrest := ih fun pre e' post hsplit => h pre e' (post ++ [e]) (by simp [hsplit])
    have hlast := h hs e [] rfl
    have hafter : (wildcardMonitor sproutWildcard).after sproutWildcard (hs ++ [e])
        = (wildcardMonitor sproutWildcard).step
          ((wildcardMonitor sproutWildcard).after sproutWildcard hs) e :=
      Monitor.after_append _ _ hs [e]
    rw [hafter, (wildcards_snoc hs e).1, (wildcards_snoc hs e).2]
    obtain ⟨o, r⟩ := e
    cases o with
    | sendServerAssignmentRequest request =>
      -- The SAR has the wildcard in use, and its SAA names the next one.
      have hrequest : request.wildcardImpu
          = (wildcardMonitor sproutWildcard).after sproutWildcard hs := hlast
      rw [List.map_append, ← List.cons_append, ← hrest, ← hrequest]
      rfl
    | _ =>
      have hnone : sarWildcards hs ++ ([] : List String) = sarWildcards hs := List.append_nil _
      show sarWildcards hs ++ [] ++ [(wildcardMonitor sproutWildcard).after sproutWildcard hs] = _
      rw [hnone, hrest]
      exact congrArg _ (congrArg _ (List.append_nil _).symm)

/-- The wildcards of the SARs of a run: Sprout's, and one for each SAA that another SAR followed. -/
theorem sarWildcards_eq {cfg : RegDataConfig} {req : HttpRequest} {hs : TaskHistory}
    (h : Begins (ImpuRegDataTask.run cfg req) hs) :
    sarWildcards hs = (cfg.wildcardFromBody req.body ::
      (saaWildcards hs).map (inUse (cfg.wildcardFromBody req.body))).dropLast := by
  have hall := sarWildcards_after fun pre e post hsplit =>
    (ImpuRegDataTask.keeps_run_wildcard cfg req).begins h hsplit
  rw [← hall, List.dropLast_concat]

/-- Only an empty wildcard gives way to another one. -/
theorem nodup_inUse_iff (sproutWildcard : String) (named : List String) :
    (sproutWildcard :: named.map (inUse sproutWildcard)).Nodup ↔
      (sproutWildcard :: named).Nodup ∧ "" ∉ named := by
  have hmap : "" ∉ named → named.map (inUse sproutWildcard) = named := by
    intro hempty
    refine (List.map_congr_left fun wildcard hmem => ?_).trans (List.map_id named)
    have hne : wildcard ≠ "" := fun heq => hempty (heq ▸ hmem)
    simp [inUse, hne]
  constructor
  · intro hnodup
    have hempty : "" ∉ named := by
      intro hmem
      refine (List.nodup_cons.mp hnodup).1 (List.mem_map.mpr ⟨"", hmem, ?_⟩)
      simp [inUse]
    rw [hmap hempty] at hnodup
    exact ⟨hnodup, hempty⟩
  · rintro ⟨hnodup, hempty⟩
    rw [hmap hempty]
    exact hnodup

/-- For every request and every run of its task, whatever the HSS and the stores answer: no two SARs
have the same wildcard if and only if the SAAs that another SAR followed name wildcards which are
not empty, differ from the one that Sprout gave and differ from each other. Then an HSS that knows
finitely many wildcards ends the task. -/
theorem sar_wildcards_distinct_iff (cfg : RegDataConfig) (req : HttpRequest) (hs : TaskHistory)
    (h : Begins (ImpuRegDataTask.run cfg req) hs) :
    ((sarWildcards hs).Nodup ↔
        (cfg.wildcardFromBody req.body :: namedWildcards hs).Nodup ∧ "" ∉ namedWildcards hs) ∧
      ((sarWildcards hs).Nodup → ∀ known : List String, (∀ w ∈ saaWildcards hs, w ∈ known) →
        (sarWildcards hs).length ≤ known.length + 1) := by
  have heq := sarWildcards_eq h
  have hiff : (sarWildcards hs).Nodup ↔
      (cfg.wildcardFromBody req.body :: namedWildcards hs).Nodup ∧ "" ∉ namedWildcards hs := by
    rw [heq, namedWildcards]
    cases hsaa : saaWildcards hs with
    | nil => simp
    | cons wildcard wildcards =>
      rw [List.map_cons, List.dropLast_cons_cons, ← List.map_cons, ← List.map_dropLast]
      exact nodup_inUse_iff _ _
  refine ⟨hiff, ?_⟩
  intro hnodup known hknown
  -- The named wildcards are different ones of the known ones.
  have hnamed : (namedWildcards hs).Nodup := (List.nodup_cons.mp (hiff.mp hnodup).1).2
  have hle : (namedWildcards hs).length ≤ known.length :=
    (List.Nodup.subperm hnamed fun w hw => hknown w (List.dropLast_subset _ hw)).length_le
  have hlength : (sarWildcards hs).length ≤ (namedWildcards hs).length + 1 := by
    rw [heq, namedWildcards]
    simp only [List.length_dropLast, List.length_cons, List.length_map]
    omega
  omega

/-- The HSS names one wildcard, and the task asks again about that. -/
theorem sar_wildcards_distinct_iff_retry : (sarWildcards wildcardHistory).Nodup :=
  ((sar_wildcards_distinct_iff exampleConfig exampleRequest wildcardHistory
    ran_wildcardHistory.begins).1).mpr (by decide)

/-! ### An HSS that names two wildcards in turn -/

def firstWildcard : String := "sip:w!.*!@example.com"

def secondWildcard : String := "sip:v!.*!@example.com"

/-- The task of the example, told of `wildcard`. -/
def toldOf (wildcard : String) : ImpuRegDataTask :=
  { ImpuRegDataTask.ofRequest exampleConfig exampleRequest with
    hssWildcard := wildcard, cachedRegState := .notRegistered }

/-- A round in which the HSS answers `wildcard` with `next`. -/
def namingRound (wildcard next : String) : TaskHistory :=
  callRound wildcard wildcard { result := .newWildcard, wildcardImpu := next }

/-- `n` rounds, starting with `wildcard`. -/
def cycle : Nat → String → String → TaskHistory
  | 0, _, _ => []
  | n + 1, wildcard, next => namingRound wildcard next ++ cycle n next wildcard

/-- Either wildcard leads to the other one, whatever comes after the loop. -/
theorem begins_cycle (n : Nat) (k : Option ImpuRegDataTask → TaskProg Unit) :
    Begins (.doWhile (ImpuRegDataTask.round exampleConfig) Option.isSome
        (some (toldOf firstWildcard)) k) (cycle n firstWildcard secondWildcard) ∧
      Begins (.doWhile (ImpuRegDataTask.round exampleConfig) Option.isSome
        (some (toldOf secondWildcard)) k) (cycle n secondWildcard firstWildcard) := by
  induction n with
  | zero => exact ⟨.nil _, .nil _⟩
  | succ n ih =>
    constructor
    · exact .unroll (.call (.call (.call (.call (.call (.call ih.2))))))
    · exact .unroll (.call (.call (.call (.call (.call (.call ih.1))))))

theorem length_sarWildcards_cycle (n : Nat) (wildcard next : String) :
    (sarWildcards (cycle n wildcard next)).length = n := by
  induction n generalizing wildcard next with
  | zero => rfl
  | succ n ih =>
    have hround : sarWildcards (namingRound wildcard next) = [wildcard] := rfl
    rw [cycle, sarWildcards, List.filterMap_append, List.length_append]
    show (sarWildcards (namingRound wildcard next)).length
      + (sarWildcards (cycle n next wildcard)).length = n + 1
    rw [hround, ih, List.length_singleton, Nat.add_comm]

theorem mem_saaWildcards_cycle (n : Nat) (wildcard next : String) :
    ∀ w ∈ saaWildcards (cycle n wildcard next), w = wildcard ∨ w = next := by
  induction n generalizing wildcard next with
  | zero => intro w hw; cases hw
  | succ n ih =>
    intro w hw
    rw [cycle, saaWildcards, List.filterMap_append] at hw
    rcases List.mem_append.mp hw with hw | hw
    · have hround : saaWildcards (namingRound wildcard next) = [next] := rfl
      exact .inr (List.mem_singleton.mp (hround ▸ hw))
    · exact (ih next wildcard w hw).symm

/-- The run of the example in which the HSS names the first wildcard, and then the other one each
time. -/
def cycleHistory (n : Nat) : TaskHistory :=
  callRound "" "sip:d@example.com" { result := .newWildcard, wildcardImpu := firstWildcard } ++
    cycle n firstWildcard secondWildcard

theorem begins_cycleHistory (n : Nat) :
    Begins (ImpuRegDataTask.run exampleConfig exampleRequest) (cycleHistory n) :=
  .unroll (.call (.call (.call (.call (.call (.call (begins_cycle n _).1))))))

/-- The third SAR about wildcards is the first one again. The HSS knows two wildcards, and for every
number the task sends more SARs than that. -/
theorem sars_without_end :
    (Begins (ImpuRegDataTask.run exampleConfig exampleRequest) (cycleHistory 3) ∧
        sarWildcards (cycleHistory 3) = ["", firstWildcard, secondWildcard, firstWildcard]) ∧
      ∀ n, ∃ hs, Begins (ImpuRegDataTask.run exampleConfig exampleRequest) hs ∧
        (∀ w ∈ saaWildcards hs, w ∈ [firstWildcard, secondWildcard]) ∧
        n < (sarWildcards hs).length := by
  refine ⟨⟨begins_cycleHistory 3, rfl⟩, ?_⟩
  intro n
  refine ⟨cycleHistory n, begins_cycleHistory n, ?_, ?_⟩
  · intro w hw
    rw [cycleHistory, saaWildcards, List.filterMap_append] at hw
    rcases List.mem_append.mp hw with hw | hw
    · have hw : w ∈ [firstWildcard] := hw
      simp [List.mem_singleton.mp hw]
    · rcases mem_saaWildcards_cycle n _ _ w hw with rfl | rfl <;> simp
  · rw [cycleHistory, sarWildcards, List.filterMap_append, List.length_append]
    have hcycle := length_sarWildcards_cycle n firstWildcard secondWildcard
    unfold sarWildcards at hcycle
    rw [hcycle]
    simp [callRound, sarWildcard]

end Homestead

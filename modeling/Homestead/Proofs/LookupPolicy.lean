import Homestead.Lib.Traces
import Homestead.Model.ParallelLookup

/-!
# `Homestead.Proofs.LookupPolicy`: the two geo-redundant lookups

`grPolicy` is the policy of a lookup: the local store decides unless it answers `NOT_FOUND`, and
then the first remote store in the order of the configuration that answers `OK`.

`gr_lookups_agree` says that both lookups follow it. `get_impu_for_impu_gr` reads the remote
stores in parallel, so it follows the policy for every order in which the reads end, and every
order can happen. `get_impi_mapping_gr` reads them one after the other, and stops at the first
`OK`. `ran_getImpuForImpuGr_policy` says that the reads of `getImpuForImpuGr`, which come one after
the other, have the result that all the orders have.
-/

set_option autoImplicit false

namespace Homestead

section Policy

variable {α : Type}

/-- The answer of the first store that answers `OK`, and `found` when none does. -/
def firstOk (found : Status × Option α) (answers : List (GetAnswer α)) : Status × Option α :=
  match answers.find? fun answer => answer.status = .ok with
  | some answer => answer.toResp
  | none => found

/-- The result of a lookup, made with `out` in the out parameter. -/
def grPolicy (localAnswer : GetAnswer α) (remoteAnswers : List (GetAnswer α)) (out : Option α) :
    Status × Option α :=
  if localAnswer.status ≠ .notFound then localAnswer.into out
  else firstOk (.notFound, out) remoteAnswers

theorem firstOk_cons_of_ok {found : Status × Option α} {answer : GetAnswer α}
    (h : answer.status = .ok) (answers : List (GetAnswer α)) :
    firstOk found (answer :: answers) = answer.toResp := by
  simp [firstOk, h]

theorem firstOk_cons_of_ne {found : Status × Option α} {answer : GetAnswer α}
    (h : answer.status ≠ .ok) (answers : List (GetAnswer α)) :
    firstOk found (answer :: answers) = firstOk found answers := by
  simp [firstOk, h]

/-- A get that is not `OK` leaves the out parameter. -/
theorem GetAnswer.into_of_ne {answer : GetAnswer α} (h : answer.status ≠ .ok) (out : Option α) :
    answer.into out = (answer.status, out) := by
  have hnone : ¬ answer.record.isSome = true := fun hsome => h (answer.ok_iff.mpr hsome)
  cases hrecord : answer.record with
  | none => simp [into, hrecord]
  | some record => simp [hrecord] at hnone

/-- A get that is `OK` replaces the out parameter. -/
theorem GetAnswer.into_of_ok {answer : GetAnswer α} (h : answer.status = .ok) (out : Option α) :
    answer.into out = answer.toResp := by
  have hsome := answer.ok_iff.mp h
  cases hrecord : answer.record with
  | none => simp [hrecord] at hsome
  | some record => simp [into, toResp, hrecord]

/-- The out parameter may be written at the end, for the answer that was chosen. -/
theorem firstOk_into (found : Status × Option α) (answers : List (GetAnswer α)) (out : Option α) :
    ((firstOk found answers).1, (firstOk found answers).2.or out)
      = firstOk (found.1, found.2.or out) answers := by
  induction answers with
  | nil => rfl
  | cons answer answers ih =>
    by_cases h : answer.status = .ok
    · rw [firstOk_cons_of_ok h, firstOk_cons_of_ok h]
      exact answer.into_of_ok h out
    · rw [firstOk_cons_of_ne h, firstOk_cons_of_ne h]
      exact ih

/-- The policy for a result whose out parameter is written at the end. -/
theorem grPolicy_of_toResp {localAnswer : GetAnswer α} {remoteAnswers : List (GetAnswer α)}
    {r : Status × Option α} (out : Option α)
    (h : r = if localAnswer.status = .notFound then firstOk localAnswer.toResp remoteAnswers
      else localAnswer.toResp) : (r.1, r.2.or out) = grPolicy localAnswer remoteAnswers out := by
  subst h
  by_cases hstatus : localAnswer.status = .notFound
  · have hout : localAnswer.into out = (.notFound, out) := by
      rw [localAnswer.into_of_ne (by simp [hstatus]), hstatus]
    rw [if_pos hstatus, firstOk_into, grPolicy, if_neg (by simpa using hstatus), ← hout]
    rfl
  · rw [if_neg hstatus, grPolicy, if_pos hstatus]
    rfl

end Policy

/-! ### The parallel reads -/

/-- The loop over the promises keeps a record that was found. -/
theorem foldl_takeResult_of_ok {found : Status × Option Impu} (h : found.1 = .ok)
    (answers : List (GetAnswer Impu)) : answers.foldl ImpuLookup.takeResult found = found := by
  induction answers with
  | nil => rfl
  | cons answer answers ih =>
    have hkeep : ImpuLookup.takeResult found answer = found := by simp [ImpuLookup.takeResult, h]
    rw [List.foldl_cons, hkeep, ih]

/-- Otherwise it ends with the first `OK`, if there is one. -/
theorem foldl_takeResult {found : Status × Option Impu} (h : found.1 ≠ .ok)
    (answers : List (GetAnswer Impu)) :
    answers.foldl ImpuLookup.takeResult found = firstOk found answers := by
  induction answers with
  | nil => rfl
  | cons answer answers ih =>
    rw [List.foldl_cons]
    by_cases hok : answer.status = .ok
    · have htake : ImpuLookup.takeResult found answer = answer.toResp := by
        simp [ImpuLookup.takeResult, h, hok, GetAnswer.into, GetAnswer.toResp]
      rw [htake, foldl_takeResult_of_ok hok, firstOk_cons_of_ok hok]
    · have hskip : ImpuLookup.takeResult found answer = found := by
        simp [ImpuLookup.takeResult, hok]
      rw [hskip, ih, firstOk_cons_of_ne hok]

/-- Every schedule that has a result has the one of the policy. -/
theorem impuLookup_run {localAnswer : GetAnswer Impu} {remoteAnswers : List (GetAnswer Impu)}
    {out : Option Impu} {schedule : List FuturesEvent} {r : Status × Option Impu}
    (h : ImpuLookup.run localAnswer remoteAnswers out schedule = some r) :
    r = grPolicy localAnswer remoteAnswers out ∧
      (localAnswer.status ≠ .notFound → FuturesEvent.fulfilled schedule = []) := by
  simp only [ImpuLookup.run] at h
  by_cases hstatus : localAnswer.status = .notFound
  · rw [if_pos (show (localAnswer.into out).1 = .notFound from hstatus)] at h
    have hout : localAnswer.into out = (.notFound, out) := by
      rw [localAnswer.into_of_ne (by simp [hstatus]), hstatus]
    split at h
    · rename_i c hrun
      split at h
      · rename_i hend
        cases h
        constructor
        · -- The accumulator depends on the answers alone, whatever the schedule was.
          rw [Futures.run_acc hrun hend, hout, foldl_takeResult (by simp), grPolicy,
            if_neg (by simpa using hstatus)]
        · intro hne
          exact absurd hstatus hne
      · cases h
    · cases h
  · rw [if_neg (show ¬ (localAnswer.into out).1 = .notFound from hstatus)] at h
    split at h
    · rename_i hnil
      cases h
      constructor
      · rw [grPolicy, if_pos hstatus]
      · intro _
        rw [hnil]
        rfl
    · cases h

/-- A schedule that gets to the end has a result. -/
theorem impuLookup_of_end {localAnswer : GetAnswer Impu} (h : localAnswer.status = .notFound)
    {remoteAnswers : List (GetAnswer Impu)} {out : Option Impu} {schedule : List FuturesEvent}
    {c : Futures (GetAnswer Impu) (Status × Option Impu)}
    (hrun : (Futures.start remoteAnswers (localAnswer.into out)).run remoteAnswers
      ImpuLookup.takeResult schedule = some c) (hend : c.taken = remoteAnswers.length) :
    ImpuLookup.run localAnswer remoteAnswers out schedule = some c.acc := by
  simp only [ImpuLookup.run]
  rw [if_pos (show (localAnswer.into out).1 = .notFound from h), hrun]
  exact if_pos hend

/-- Whatever has happened so far, the call can come to its end. -/
theorem impuLookup_finish {localAnswer : GetAnswer Impu} (h : localAnswer.status = .notFound)
    {remoteAnswers : List (GetAnswer Impu)} {out : Option Impu} {schedule : List FuturesEvent}
    {c : Futures (GetAnswer Impu) (Status × Option Impu)}
    (hrun : (Futures.start remoteAnswers (localAnswer.into out)).run remoteAnswers
      ImpuLookup.takeResult schedule = some c) :
    ∃ more r, ImpuLookup.run localAnswer remoteAnswers out (schedule ++ more) = some r := by
  obtain ⟨more, c', hmore, hend⟩ := Futures.run_finish ((Futures.inv_start _).run hrun)
  refine ⟨more, c'.acc, impuLookup_of_end h ?_ hend⟩
  rw [Futures.run_append, hrun]
  exact hmore

/-! ### The reads one after the other -/

/-- The reads of an IMPU in a list of stores, with their answers. -/
def impuReads (impu : String) (stores : List (StoreId × GetAnswer Impu)) :
    List (Event Call Call.Resp) :=
  stores.map fun store => ⟨.getImpu store.1 impu, store.2.toResp⟩

/-- The reads of a mapping. -/
def mappingReads (impi : String) (stores : List (StoreId × GetAnswer ImpiMapping)) :
    List (Event Call Call.Resp) :=
  stores.map fun store => ⟨.getImpiMapping store.1 impi, store.2.toResp⟩

/-- The stores up to the first that answers `OK`. -/
def upToOk {α : Type} : List (StoreId × GetAnswer α) → List (StoreId × GetAnswer α)
  | [] => []
  | store :: stores => if store.2.status = .ok then [store] else store :: upToOk stores

/-- The loop of `get_impi_mapping_gr` reads the remote stores up to the first `OK`. -/
theorem ran_getImpiMappingRemote {impi : String} {found r : Status × Option ImpiMapping}
    {remotes : List (StoreId × GetAnswer ImpiMapping)} {hs : List (Event Call Call.Resp)}
    (h : Ran (MemcachedCache.getImpiMappingRemote impi found (remotes.map Prod.fst)) hs r)
    (hreads : hs <+: mappingReads impi remotes) :
    hs = mappingReads impi (upToOk remotes) ∧ r = firstOk found (remotes.map Prod.snd) := by
  induction remotes generalizing hs with
  | nil =>
    obtain ⟨rfl, rfl⟩ := Ran.ret_iff.mp h
    exact ⟨rfl, rfl⟩
  | cons remote remotes ih =>
    obtain ⟨answer, hs', rfl, hrest⟩ := Ran.call_bind_iff.mp h
    obtain ⟨hhead, htail⟩ := List.cons_prefix_cons.mp hreads
    obtain rfl : answer = remote.2.toResp := eq_of_heq (Sigma.mk.inj hhead).2
    rw [List.map_cons]
    by_cases hok : remote.2.status = .ok
    · rw [if_pos (show remote.2.toResp.1 = .ok from hok)] at hrest
      obtain ⟨rfl, rfl⟩ := Ran.ret_iff.mp hrest
      rw [firstOk_cons_of_ok hok, upToOk, if_pos hok]
      exact ⟨rfl, rfl⟩
    · rw [if_neg (show ¬ remote.2.toResp.1 = .ok from hok)] at hrest
      obtain ⟨rfl, rfl⟩ := ih hrest htail
      rw [firstOk_cons_of_ne hok, upToOk, if_neg hok]
      exact ⟨rfl, rfl⟩

/-- The loop ends, whatever the remote stores answer. -/
theorem exists_ran_getImpiMappingRemote (impi : String) (found : Status × Option ImpiMapping)
    (remotes : List (StoreId × GetAnswer ImpiMapping)) :
    ∃ hs r, hs <+: mappingReads impi remotes ∧
      Ran (MemcachedCache.getImpiMappingRemote impi found (remotes.map Prod.fst)) hs r := by
  induction remotes with
  | nil => exact ⟨[], found, List.prefix_refl _, .ret _⟩
  | cons remote remotes ih =>
    obtain ⟨hs, r, hreads, hran⟩ := ih
    have hread : ∀ {hs r}, hs <+: mappingReads impi remotes →
        Ran (if remote.2.toResp.1 = .ok then pure remote.2.toResp
          else MemcachedCache.getImpiMappingRemote impi found (remotes.map Prod.fst)) hs r →
        ∃ hs r, hs <+: mappingReads impi (remote :: remotes) ∧
          Ran (MemcachedCache.getImpiMappingRemote impi found
            ((remote :: remotes).map Prod.fst)) hs r := by
      intro hs r hreads hrest
      refine ⟨⟨.getImpiMapping remote.1 impi, remote.2.toResp⟩ :: hs, r, ?_, ?_⟩
      · exact List.cons_prefix_cons.mpr ⟨rfl, hreads⟩
      · exact Ran.call_bind_iff.mpr ⟨_, _, rfl, hrest⟩
    by_cases hok : remote.2.status = .ok
    · refine hread (List.nil_prefix) (r := remote.2.toResp) ?_
      rw [if_pos (show remote.2.toResp.1 = .ok from hok)]
      exact .ret _
    · refine hread hreads (r := r) ?_
      rw [if_neg (show ¬ remote.2.toResp.1 = .ok from hok)]
      exact hran

variable {cache : MemcachedCache} {impi : String}

/-- `get_impi_mapping_gr` follows the policy, and reads no remote store unless the local one
answers `NOT_FOUND`. -/
theorem ran_getImpiMappingGr {localAnswer : GetAnswer ImpiMapping}
    {remotes : List (StoreId × GetAnswer ImpiMapping)}
    (hremotes : cache.remoteStores = remotes.map Prod.fst) {hs : List (Event Call Call.Resp)}
    {r : Status × Option ImpiMapping} (h : Ran (cache.getImpiMappingGr impi) hs r)
    (hreads : hs <+: mappingReads impi ((cache.localStore, localAnswer) :: remotes)) :
    (∀ out, (r.1, r.2.or out) = grPolicy localAnswer (remotes.map Prod.snd) out) ∧
      hs = mappingReads impi ((cache.localStore, localAnswer) ::
        if localAnswer.status = .notFound then upToOk remotes else []) := by
  obtain ⟨answer, hs', rfl, hrest⟩ := Ran.call_bind_iff.mp h
  obtain ⟨hhead, htail⟩ := List.cons_prefix_cons.mp hreads
  obtain rfl : answer = localAnswer.toResp := eq_of_heq (Sigma.mk.inj hhead).2
  by_cases hstatus : localAnswer.status = .notFound
  · rw [if_pos (show localAnswer.toResp.1 = .notFound from hstatus), hremotes] at hrest
    obtain ⟨rfl, rfl⟩ := ran_getImpiMappingRemote hrest htail
    refine ⟨fun out => grPolicy_of_toResp out ?_, ?_⟩
    · rw [if_pos hstatus]
    · rw [if_pos hstatus]
      rfl
  · rw [if_neg (show ¬ localAnswer.toResp.1 = .notFound from hstatus)] at hrest
    obtain ⟨rfl, rfl⟩ := Ran.ret_iff.mp hrest
    refine ⟨fun out => grPolicy_of_toResp out ?_, ?_⟩
    · rw [if_neg hstatus]
    · rw [if_neg hstatus]
      rfl

/-- The call ends, whatever the stores answer. -/
theorem exists_ran_getImpiMappingGr (localAnswer : GetAnswer ImpiMapping)
    {remotes : List (StoreId × GetAnswer ImpiMapping)}
    (hremotes : cache.remoteStores = remotes.map Prod.fst) :
    ∃ hs r, hs <+: mappingReads impi ((cache.localStore, localAnswer) :: remotes) ∧
      Ran (cache.getImpiMappingGr impi) hs r := by
  have hread : ∀ {hs r}, hs <+: mappingReads impi remotes →
      Ran (if localAnswer.toResp.1 = .notFound then
          MemcachedCache.getImpiMappingRemote impi localAnswer.toResp cache.remoteStores
        else pure localAnswer.toResp) hs r →
      ∃ hs r, hs <+: mappingReads impi ((cache.localStore, localAnswer) :: remotes) ∧
        Ran (cache.getImpiMappingGr impi) hs r := by
    intro hs r hreads hrest
    refine ⟨⟨.getImpiMapping cache.localStore impi, localAnswer.toResp⟩ :: hs, r, ?_, ?_⟩
    · exact List.cons_prefix_cons.mpr ⟨rfl, hreads⟩
    · exact Ran.call_bind_iff.mpr ⟨_, _, rfl, hrest⟩
  by_cases hstatus : localAnswer.status = .notFound
  · obtain ⟨hs, r, hreads, hran⟩ :=
      exists_ran_getImpiMappingRemote impi localAnswer.toResp remotes
    refine hread hreads (r := r) ?_
    rw [if_pos (show localAnswer.toResp.1 = .notFound from hstatus), hremotes]
    exact hran
  · refine hread (List.nil_prefix) (r := localAnswer.toResp) ?_
    rw [if_neg (show ¬ localAnswer.toResp.1 = .notFound from hstatus)]
    exact .ret _

/-- The reads of `getImpuForImpuGr`, which come one after the other, follow the policy too. -/
theorem ran_getImpuForImpuGr_policy {impu : String} {localAnswer : GetAnswer Impu}
    {remotes : List (StoreId × GetAnswer Impu)}
    (hremotes : cache.remoteStores = remotes.map Prod.fst) {hs : List (Event Call Call.Resp)}
    {r : Status × Option Impu} (h : Ran (cache.getImpuForImpuGr impu) hs r)
    (hreads : hs <+: impuReads impu ((cache.localStore, localAnswer) :: remotes))
    (out : Option Impu) :
    (r.1, r.2.or out) = grPolicy localAnswer (remotes.map Prod.snd) out := by
  -- The loop over the remote stores, by induction on them.
  have hloop : ∀ (remotes : List (StoreId × GetAnswer Impu)) (found : Status × Option Impu) hs r,
      Ran (Prog.forEach (remotes.map Prod.fst) (fun remoteStore found => do
        let remote ← CacheProg.getImpu remoteStore impu
        if found.1 ≠ .ok ∧ remote.1 = .ok then pure remote else pure found) found) hs r →
      hs <+: impuReads impu remotes →
      r = (remotes.map Prod.snd).foldl ImpuLookup.takeResult found := by
    intro remotes
    induction remotes with
    | nil =>
      intro found hs r hran _
      exact (Ran.ret_iff.mp hran).2
    | cons remote remotes ih =>
      intro found hs r hran hreads
      obtain ⟨answer, hs', rfl, hrest⟩ := Ran.call_iff.mp hran
      obtain ⟨hhead, htail⟩ := List.cons_prefix_cons.mp hreads
      obtain rfl : answer = remote.2.toResp := eq_of_heq (Sigma.mk.inj hhead).2
      have hbody : (if found.1 ≠ .ok ∧ remote.2.toResp.1 = .ok then
          (pure remote.2.toResp : CacheProg (Status × Option Impu)) else pure found)
          = .ret (ImpuLookup.takeResult found remote.2) := by
        unfold ImpuLookup.takeResult
        split
        · rename_i hok
          rw [if_pos (show found.1 ≠ .ok ∧ remote.2.status = .ok from hok),
            ← (show remote.2.status = .ok from hok.2)]
          simp [GetAnswer.toResp, GetAnswer.into]
        · rename_i hne
          rw [if_neg (show ¬ (found.1 ≠ .ok ∧ remote.2.status = .ok) from hne)]
          rfl
      have hnext : Ran ((if found.1 ≠ .ok ∧ remote.2.toResp.1 = .ok then
          (pure remote.2.toResp : CacheProg (Status × Option Impu)) else pure found) >>= _) hs' r :=
        hrest
      rw [hbody] at hnext
      exact ih _ _ _ hnext htail
  obtain ⟨answer, hs', rfl, hrest⟩ := Ran.call_bind_iff.mp h
  obtain ⟨hhead, htail⟩ := List.cons_prefix_cons.mp hreads
  obtain rfl : answer = localAnswer.toResp := eq_of_heq (Sigma.mk.inj hhead).2
  apply grPolicy_of_toResp
  by_cases hstatus : localAnswer.status = .notFound
  · rw [if_pos (show localAnswer.toResp.1 = .notFound from hstatus), hremotes] at hrest
    rw [hloop _ _ _ _ hrest htail, if_pos hstatus]
    apply foldl_takeResult
    show localAnswer.status ≠ .ok
    simp [hstatus]
  · rw [if_neg (show ¬ localAnswer.toResp.1 = .notFound from hstatus)] at hrest
    rw [(Ran.ret_iff.mp hrest).2, if_neg hstatus]

/-- The two geo-redundant lookups implement the same policy.

* Every schedule of the remote reads of `get_impu_for_impu_gr` that has a result has the one of the
  policy, and no remote store is read unless the local one answers `NOT_FOUND`.
* Every order of the remote reads is the order of such a schedule, and the call can come to
  its end from wherever it is.
* `get_impi_mapping_gr` ends, and every run of it has the result of the policy. It reads no
  remote store unless the local one answers `NOT_FOUND`, and then none after the first `OK`. -/
theorem gr_lookups_agree :
    (∀ localAnswer remoteAnswers out schedule r,
      ImpuLookup.run localAnswer remoteAnswers out schedule = some r →
      r = grPolicy localAnswer remoteAnswers out ∧
        (localAnswer.status ≠ .notFound → FuturesEvent.fulfilled schedule = [])) ∧
    (∀ (localAnswer : GetAnswer Impu) (remoteAnswers : List (GetAnswer Impu)) (out : Option Impu),
      (∀ order : List Nat, order.Perm (List.range remoteAnswers.length) → ∃ schedule r,
        FuturesEvent.fulfilled schedule = (if localAnswer.status = .notFound then order else []) ∧
        ImpuLookup.run localAnswer remoteAnswers out schedule = some r) ∧
      ∀ schedule c, localAnswer.status = .notFound →
        (Futures.start remoteAnswers (localAnswer.into out)).run remoteAnswers
          ImpuLookup.takeResult schedule = some c →
        ∃ more r, ImpuLookup.run localAnswer remoteAnswers out (schedule ++ more) = some r) ∧
    (∀ (cache : MemcachedCache) (impi : String) (localAnswer : GetAnswer ImpiMapping)
      (remotes : List (StoreId × GetAnswer ImpiMapping)),
      cache.remoteStores = remotes.map Prod.fst →
      (∃ hs r, hs <+: mappingReads impi ((cache.localStore, localAnswer) :: remotes) ∧
        Ran (cache.getImpiMappingGr impi) hs r) ∧
      ∀ hs r, hs <+: mappingReads impi ((cache.localStore, localAnswer) :: remotes) →
        Ran (cache.getImpiMappingGr impi) hs r →
        (∀ out, (r.1, r.2.or out) = grPolicy localAnswer (remotes.map Prod.snd) out) ∧
          hs = mappingReads impi ((cache.localStore, localAnswer) ::
            if localAnswer.status = .notFound then upToOk remotes else [])) := by
  refine ⟨fun _ _ _ _ _ h => impuLookup_run h, ?_, ?_⟩
  · intro localAnswer remoteAnswers out
    constructor
    · intro order horder
      -- The futures are only started when the local store has no record.
      by_cases hstatus : localAnswer.status = .notFound
      · obtain ⟨schedule, c, hfulfilled, hrun, hend⟩ :=
          Futures.run_order ImpuLookup.takeResult horder (localAnswer.into out)
        refine ⟨schedule, c.acc, ?_, impuLookup_of_end hstatus hrun hend⟩
        rw [if_pos hstatus, hfulfilled]
      · refine ⟨[], localAnswer.into out, ?_, ?_⟩
        · rw [if_neg hstatus]
          rfl
        · simp only [ImpuLookup.run]
          rw [if_neg (show ¬ (localAnswer.into out).1 = .notFound from hstatus)]
          rfl
    · intro schedule c hstatus hrun
      exact impuLookup_finish hstatus hrun
  · intro cache impi localAnswer remotes hremotes
    refine ⟨exists_ran_getImpiMappingGr localAnswer hremotes, fun hs r hreads hran => ?_⟩
    exact ran_getImpiMappingGr hremotes hran hreads

/-- Three remote reads that end in the order 2, 0, 1. The first store fails, and the record of
the second one is returned, although that of the third one was there first. -/
theorem gr_lookups_agree_reordered (d₁ d₂ : Impu) :
    ∃ schedule, FuturesEvent.fulfilled schedule = [2, 0, 1] ∧
      ImpuLookup.run ⟨.notFound, none, by simp⟩
        [⟨.error, none, by simp⟩, ⟨.ok, some d₁, by simp⟩, ⟨.ok, some d₂, by simp⟩] none schedule
        = some (.ok, some d₁) := by
  have horder : List.Perm [2, 0, 1] (List.range 3) := by decide
  obtain ⟨schedule, r, hfulfilled, hrun⟩ := (gr_lookups_agree.2.1 ⟨.notFound, none, by simp⟩
    [⟨.error, none, by simp⟩, ⟨.ok, some d₁, by simp⟩, ⟨.ok, some d₂, by simp⟩] none).1
    [2, 0, 1] horder
  refine ⟨schedule, hfulfilled, ?_⟩
  rw [hrun, (gr_lookups_agree.1 _ _ _ _ _ hrun).1]
  rfl

end Homestead

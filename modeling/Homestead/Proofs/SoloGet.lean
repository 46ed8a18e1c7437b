import Homestead.Proofs.Solo
import Homestead.Model.BaseHssCache

/-!
# `Homestead.Proofs.SoloGet`: lookups alone on a reliable store

A lookup writes nothing, so its answer is a function of the stores. `impuGr`, `mappingGr`
and `defaultImpuFor` are these functions, one for each of `get_impu_for_impu_gr`,
`get_impi_mapping_gr` and the part of `get_implicit_registration_set_for_impu` before the
IRS is built, and the `eval_` lemmas say that the programs compute them.
-/

set_option autoImplicit false

namespace Homestead

open CacheProg

namespace MemcachedCache

/-- The answer of `get_impu_for_impu_gr`: the local store's, and on `NOT_FOUND` that of the
first remote store with an `OK`. -/
def impuGr (cache : MemcachedCache) (w : World) (impu : String) : Status × Option Impu :=
  let found := (w.stores cache.localStore).getImpu cache.localStore impu
  if found.1 = .notFound then
    cache.remoteStores.foldl
      (fun found r =>
        let remote := (w.stores r).getImpu r impu
        if found.1 ≠ .ok ∧ remote.1 = .ok then remote else found)
      found
  else found

/-- The answer of the loop over the remote stores in `get_impi_mapping_gr`. -/
def mappingRemote (w : World) (impi : String) (found : Status × Option ImpiMapping) :
    List StoreId → Status × Option ImpiMapping
  | [] => found
  | r :: rs =>
    let remote := (w.stores r).getImpiMapping impi
    if remote.1 = .ok then remote else mappingRemote w impi found rs

/-- The answer of `get_impi_mapping_gr`. -/
def mappingGr (cache : MemcachedCache) (w : World) (impi : String) :
    Status × Option ImpiMapping :=
  let found := (w.stores cache.localStore).getImpiMapping impi
  if found.1 = .notFound then mappingRemote w impi found cache.remoteStores else found

/-- The record that the lookup of an IMPU builds its IRS from. -/
def defaultImpuFor (cache : MemcachedCache) (w : World) (impu : String) :
    Status × Option DefaultImpu :=
  match cache.impuGr w impu with
  | (.ok, some (.default d)) => (.ok, some d)
  | (.ok, some (.associated a)) => checkTarget impu (cache.impuGr w a.defaultImpu)
  | (status, _) => (status, none)

/-- The reads of the remote stores. -/
theorem eval_remoteReads (impu : String) (w : World) (rs : List StoreId)
    (found : Status × Option Impu) :
    Eval serve (Prog.forEach rs
      (fun remoteStore found => do
        let remote ← getImpu remoteStore impu
        if found.1 ≠ .ok ∧ remote.1 = .ok then pure remote else pure found) found) w
      (rs.foldl (fun found r =>
        let remote := (w.stores r).getImpu r impu
        if found.1 ≠ .ok ∧ remote.1 = .ok then remote else found) found) w := by
  induction rs generalizing found with
  | nil => exact .ret _ _
  | cons r rs ih =>
    refine Eval.bind ((eval_getImpu r impu w).bind ?_) (ih _)
    dsimp only
    split
    · exact .ret _ _
    · exact .ret _ _

theorem eval_getImpuForImpuGr (cache : MemcachedCache) (impu : String) (w : World) :
    Eval serve (cache.getImpuForImpuGr impu) w (cache.impuGr w impu) w := by
  refine (eval_getImpu cache.localStore impu w).bind ?_
  unfold impuGr
  dsimp only
  split
  · exact eval_remoteReads impu w _ _
  · exact .ret _ _

theorem eval_getImpiMappingRemote (impi : String) (found : Status × Option ImpiMapping)
    (rs : List StoreId) (w : World) :
    Eval serve (getImpiMappingRemote impi found rs) w (mappingRemote w impi found rs) w := by
  induction rs with
  | nil => exact .ret _ _
  | cons r rs ih =>
    refine (eval_getImpiMapping r impi w).bind ?_
    unfold mappingRemote
    dsimp only
    split
    · exact .ret _ _
    · exact ih

theorem eval_getImpiMappingGr (cache : MemcachedCache) (impi : String) (w : World) :
    Eval serve (cache.getImpiMappingGr impi) w (cache.mappingGr w impi) w := by
  refine (eval_getImpiMapping cache.localStore impi w).bind ?_
  unfold mappingGr
  dsimp only
  split
  · exact eval_getImpiMappingRemote impi _ _ w
  · exact .ret _ _

theorem eval_getDefaultImpuForImpu (cache : MemcachedCache) (impu : String) (w : World) :
    Eval serve (cache.getDefaultImpuForImpu impu) w (cache.defaultImpuFor w impu) w := by
  refine (cache.eval_getImpuForImpuGr impu w).bind ?_
  unfold defaultImpuFor
  obtain ⟨status, found⟩ := cache.impuGr w impu
  cases status with
  | ok =>
    cases found with
    | none => exact .ret _ _
    | some r =>
      cases r with
      | default d => exact .ret _ _
      | associated a => exact (cache.eval_getImpuForImpuGr _ w).bind (.ret _ _)
  | notFound => exact .ret _ _
  | dataContention => exact .ret _ _
  | error => exact .ret _ _

/-- A lookup that finds a record builds the IRS from it. -/
theorem eval_getImplicitRegistrationSetForImpu_ok {cache : MemcachedCache} {impu : String}
    {w : World} {d : DefaultImpu} (h : cache.defaultImpuFor w impu = (.ok, some d)) :
    Eval serve (cache.getImplicitRegistrationSetForImpu impu) w
      (.ok, some (Irs.ofDefaultImpu d (w.clock 0))) w.tick := by
  have hfound := cache.eval_getDefaultImpuForImpu impu w
  rw [h] at hfound
  exact hfound.bind ((eval_timeNow w).bind (.ret _ _))

/-- A lookup that finds no record returns the status it got. -/
theorem eval_getImplicitRegistrationSetForImpu_ne {cache : MemcachedCache} {impu : String}
    {w : World} {status : Status} {d : Option DefaultImpu}
    (h : cache.defaultImpuFor w impu = (status, d)) (hne : status ≠ .ok) :
    Eval serve (cache.getImplicitRegistrationSetForImpu impu) w (status, none) w := by
  have hfound := cache.eval_getDefaultImpuForImpu impu w
  rw [h] at hfound
  refine hfound.bind ?_
  cases status with
  | ok => exact absurd rfl hne
  | notFound => exact .ret _ _
  | dataContention => exact .ret _ _
  | error => exact .ret _ _

end MemcachedCache

/-! ### Answers are well formed -/

/-- The answers a read of a reliable store gives. The out parameter is filled when the
status is `OK`, and only then. -/
inductive IsAnswer {α : Type} : Status × Option α → Prop
  | found (a : α) : IsAnswer (.ok, some a)
  | notFound : IsAnswer (.notFound, none)
  | error : IsAnswer (.error, none)

theorem IsAnswer.eq_of_snd {α : Type} {r : Status × Option α} (h : IsAnswer r) {a : α}
    (ha : r.2 = some a) : r = (.ok, some a) := by
  cases h with
  | found b => rw [← ha]
  | notFound => cases ha
  | error => cases ha

theorem ImpuStore.isAnswer_getImpu (st : ImpuStore) (s : StoreId) (impu : String) :
    IsAnswer (st.getImpu s impu) := by
  unfold getImpu
  split
  · exact .notFound
  · exact .error
  · exact .found _

/-- A read that answers `OK` returns the record under the key. -/
theorem ImpuStore.cells_of_getImpu {st : ImpuStore} {s : StoreId} {impu : String} {r : Impu}
    (h : st.getImpu s impu = (.ok, some r)) :
    ∃ cas data, st.impus.cells impu = some (cas, .decoded data) ∧ r = data.fromData impu cas s := by
  cases hcell : st.impus.cells impu with
  | none =>
    rw [getImpu_of_none hcell] at h
    cases h
  | some p =>
    obtain ⟨cas, blob⟩ := p
    cases blob with
    | corrupt =>
      rw [getImpu_of_corrupt hcell] at h
      cases h
    | decoded data =>
      rw [getImpu_of_decoded hcell] at h
      cases h
      exact ⟨cas, data, rfl, rfl⟩

theorem ImpuStore.isAnswer_getImpiMapping (st : ImpuStore) (impi : String) :
    IsAnswer (st.getImpiMapping impi) := by
  unfold getImpiMapping
  split
  · exact .notFound
  · exact .error
  · exact .found _

/-- A read that answers `OK` returns the mapping under the key. -/
theorem ImpuStore.cells_of_getImpiMapping {st : ImpuStore} {impi : String} {m : ImpiMapping}
    (h : st.getImpiMapping impi = (.ok, some m)) :
    ∃ cas data, st.mappings.cells impi = some (cas, .decoded data) ∧ m = data.fromData impi cas := by
  cases hcell : st.mappings.cells impi with
  | none =>
    rw [getImpiMapping_of_none hcell] at h
    cases h
  | some p =>
    obtain ⟨cas, blob⟩ := p
    cases blob with
    | corrupt =>
      rw [getImpiMapping_of_corrupt hcell] at h
      cases h
    | decoded data =>
      rw [getImpiMapping_of_decoded hcell] at h
      cases h
      exact ⟨cas, data, rfl, rfl⟩

namespace MemcachedCache

theorem isAnswer_impuGr (cache : MemcachedCache) (w : World) (impu : String) :
    IsAnswer (cache.impuGr w impu) := by
  unfold impuGr
  dsimp only
  split
  · -- Every answer the fold can keep is one of a store.
    suffices key : ∀ (rs : List StoreId) (found : Status × Option Impu), IsAnswer found →
        IsAnswer (rs.foldl (fun found r =>
          let remote := (w.stores r).getImpu r impu
          if found.1 ≠ .ok ∧ remote.1 = .ok then remote else found) found) from
      key _ _ (ImpuStore.isAnswer_getImpu _ _ _)
    intro rs
    induction rs with
    | nil => exact fun _ h => h
    | cons r rs ih =>
      intro found hfound
      refine ih _ ?_
      dsimp only
      split
      · exact ImpuStore.isAnswer_getImpu _ _ _
      · exact hfound
  · exact ImpuStore.isAnswer_getImpu _ _ _

theorem isAnswer_mappingGr (cache : MemcachedCache) (w : World) (impi : String) :
    IsAnswer (cache.mappingGr w impi) := by
  unfold mappingGr
  dsimp only
  split
  · suffices key : ∀ (rs : List StoreId) (found : Status × Option ImpiMapping),
        IsAnswer found → IsAnswer (mappingRemote w impi found rs) from
      key _ _ (ImpuStore.isAnswer_getImpiMapping _ _)
    intro rs found hfound
    induction rs with
    | nil => exact hfound
    | cons r rs ih =>
      unfold mappingRemote
      dsimp only
      split
      · exact ImpuStore.isAnswer_getImpiMapping _ _
      · exact ih
  · exact ImpuStore.isAnswer_getImpiMapping _ _

theorem isAnswer_checkTarget (impu : String) {target : Status × Option Impu}
    (h : IsAnswer target) : IsAnswer (checkTarget impu target) := by
  cases h with
  | found r =>
    cases r with
    | default d =>
      unfold checkTarget
      dsimp only
      split
      · exact .found d
      · exact .notFound
    | associated a => exact .notFound
  | notFound => exact .notFound
  | error => exact .error

theorem isAnswer_defaultImpuFor (cache : MemcachedCache) (w : World) (impu : String) :
    IsAnswer (cache.defaultImpuFor w impu) := by
  unfold defaultImpuFor
  have hanswer := cache.isAnswer_impuGr w impu
  generalize cache.impuGr w impu = found at hanswer
  cases hanswer with
  | found r =>
    cases r with
    | default d => exact .found d
    | associated a => exact isAnswer_checkTarget impu (cache.isAnswer_impuGr w _)
  | notFound => exact .notFound
  | error => exact .error

/-- A lookup that answers `OK` found a record under the key. -/
theorem impuGr_of_defaultImpuFor {cache : MemcachedCache} {w : World} {impu : String}
    {d : DefaultImpu} (h : cache.defaultImpuFor w impu = (.ok, some d)) :
    ∃ r, cache.impuGr w impu = (.ok, some r) := by
  unfold defaultImpuFor at h
  have hanswer := cache.isAnswer_impuGr w impu
  generalize cache.impuGr w impu = found at h hanswer
  cases hanswer with
  | found r => exact ⟨r, rfl⟩
  | notFound => cases h
  | error => cases h

/-- A record that the lookup finds is the one of the first store of the cache that answers
`OK`. -/
theorem exists_first_of_impuGr {cache : MemcachedCache} {w : World} {impu : String} {r : Impu}
    (h : cache.impuGr w impu = (.ok, some r)) :
    ∃ before s after, cache.localStore :: cache.remoteStores = before ++ s :: after ∧
      (∀ s' ∈ before, ((w.stores s').getImpu s' impu).1 ≠ .ok) ∧
      (w.stores s).getImpu s impu = (.ok, some r) := by
  unfold impuGr at h
  dsimp only at h
  split at h
  · rename_i hlocal
    -- The fold keeps an answer that is `OK`, and starts with one that is not.
    suffices key : ∀ (rs : List StoreId) (found : Status × Option Impu),
        rs.foldl (fun found r =>
          let remote := (w.stores r).getImpu r impu
          if found.1 ≠ .ok ∧ remote.1 = .ok then remote else found) found = (.ok, some r) →
        found = (.ok, some r) ∨ found.1 ≠ .ok ∧ ∃ before s after, rs = before ++ s :: after ∧
          (∀ s' ∈ before, ((w.stores s').getImpu s' impu).1 ≠ .ok) ∧
          (w.stores s).getImpu s impu = (.ok, some r) by
      rcases key _ _ h with hfound | ⟨-, before, s, after, hrs, hbefore, hget⟩
      · rw [hfound] at hlocal
        cases hlocal
      · refine ⟨cache.localStore :: before, s, after, by rw [hrs]; rfl, ?_, hget⟩
        intro s' hs'
        rcases List.mem_cons.mp hs' with rfl | hs'
        · rw [hlocal]
          decide
        · exact hbefore s' hs'
    intro rs
    induction rs with
    | nil => exact fun found hfound => .inl hfound
    | cons s rs ih =>
      intro found hfound
      by_cases htaken : found.1 ≠ .ok ∧ ((w.stores s).getImpu s impu).1 = .ok
      · rcases ih _ hfound with hhead | ⟨hne, -⟩
        · simp only [if_pos htaken] at hhead
          exact .inr ⟨htaken.1, [], s, rs, rfl, fun _ hs' => absurd hs' List.not_mem_nil, hhead⟩
        · simp only [if_pos htaken] at hne
          exact absurd htaken.2 hne
      · rcases ih _ hfound with hhead | ⟨hne, before, s', after, hrs, hbefore, hget⟩
        · simp only [if_neg htaken] at hhead
          exact .inl hhead
        · simp only [if_neg htaken] at hne
          refine .inr ⟨hne, s :: before, s', after, by rw [hrs]; rfl, ?_, hget⟩
          intro s'' hs''
          rcases List.mem_cons.mp hs'' with rfl | hs''
          · exact fun hok => htaken ⟨hne, hok⟩
          · exact hbefore s'' hs''
  · exact ⟨[], _, _, rfl, fun _ hs' => absurd hs' List.not_mem_nil, h⟩

/-- A record that the lookup finds is the one that some store of the cache holds. -/
theorem exists_store_of_impuGr {cache : MemcachedCache} {w : World} {impu : String} {r : Impu}
    (h : cache.impuGr w impu = (.ok, some r)) :
    ∃ s ∈ cache.localStore :: cache.remoteStores,
      (w.stores s).getImpu s impu = (.ok, some r) := by
  obtain ⟨before, s, after, hstores, -, hget⟩ := exists_first_of_impuGr h
  exact ⟨s, by rw [hstores]; simp, hget⟩

/-! ### A single store -/

/-- With no remote store the lookup sees the local one. -/
theorem impuGr_local {cache : MemcachedCache} (hremote : cache.remoteStores = []) (w : World)
    (impu : String) :
    cache.impuGr w impu = (w.stores cache.localStore).getImpu cache.localStore impu := by
  unfold impuGr
  rw [hremote]
  dsimp only
  split <;> rfl

end MemcachedCache

end Homestead

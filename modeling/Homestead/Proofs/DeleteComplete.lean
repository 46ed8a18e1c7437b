import Homestead.Proofs.SoloPut
import Homestead.Proofs.SoloGet

/-!
# `Homestead.Proofs.DeleteComplete`: deletion removes an IRS from every store

`delete_implicit_registration_set` on a local store and any list of remote stores, all
reliable, with no other client. One mutable IRS object is used for all of them.

* `TwoWay` is the consistency of one store for a default IMPU `D`, and `DeletedFrom` what a
  complete deletion of `D` makes of a store.
* `eval_deleteIrsAction_complete` is the step: one store, with an IRS that tracks at least
  what the record lists, if the IRS is from this store.
* `delete_complete` is the run over all the stores.
-/

set_option autoImplicit false

namespace Homestead

open CacheProg

/-- The store is two-way consistent for the default IMPU `D`: a record at `D` is a
`DefaultImpu`, the associated IMPUs that point at `D` are those it lists, and the mappings
that contain `D` are those of the IMPIs it lists. -/
structure TwoWay (D : String) (st : ImpuStore) : Prop where
  record : ∀ blob, st.impus.value? D = some blob → ∃ d, blob = .decoded (.default d)
  associated : ∀ x, st.PointsAt x D ↔ ∃ d, st.defaultAt D = some d ∧ x ∈ d.assocImpu
  mapped : ∀ impi, st.Maps impi D ↔ ∃ d, st.defaultAt D = some d ∧ impi ∈ d.impis

/-- `st'` is `st` with everything of the default IMPU `D` removed and the rest exactly as
before. `MappingRemoved` says it for the mappings: one that has only `D` is gone, and
another one keeps its other default IMPUs in their order, and its expiry. -/
structure DeletedFrom (D : String) (st st' : ImpuStore) : Prop where
  record : st'.impus.cells D = none
  associated : ∀ x, ¬ st'.PointsAt x D
  mapped : ∀ impi, ¬ st'.Maps impi D
  impus : ∀ k, k ≠ D → ¬ st.PointsAt k D → st'.impus.cells k = st.impus.cells k
  mappings : ∀ impi, MappingRemoved D (st.mappings.cells impi) (st'.mappings.cells impi)

/-- A store from which `D` has been removed is two-way consistent for it. -/
theorem DeletedFrom.twoWay {D : String} {st st' : ImpuStore} (h : DeletedFrom D st st') :
    TwoWay D st' := by
  have hnone : st'.impus.value? D = none := CasTable.value?_eq_none.mpr h.record
  have hdefault : st'.defaultAt D = none := by
    unfold ImpuStore.defaultAt
    rw [hnone]
  refine ⟨fun blob hblob => ?_, fun x => ?_, fun impi => ?_⟩
  · rw [hnone] at hblob
    cases hblob
  · simp [hdefault, h.associated x]
  · simp [hdefault, h.mapped impi]

theorem maps_of_cells {st : ImpuStore} {impi D : String} {cas : Nat} {m : MappingData}
    (hcell : st.mappings.cells impi = some (cas, .decoded m)) :
    st.Maps impi D ↔ D ∈ m.defaultImpus := by
  constructor
  · rintro ⟨m', hvalue, hmem⟩
    rw [CasTable.value?_of_cells hcell] at hvalue
    cases hvalue
    exact hmem
  · exact fun hmem => ⟨m, CasTable.value?_of_cells hcell, hmem⟩

/-- Removing `D` from a mapping that does not have it changes nothing. -/
theorem mappingRemoved_of_not_maps {st : ImpuStore} {impi D : String}
    (hm : ¬ st.Maps impi D) {v' : Option (Nat × Blob MappingData)} :
    MappingRemoved D (st.mappings.cells impi) v' ↔ v' = st.mappings.cells impi := by
  cases hcell : st.mappings.cells impi with
  | none => exact Iff.rfl
  | some p =>
    obtain ⟨cas, blob⟩ := p
    cases blob with
    | corrupt => exact Iff.rfl
    | decoded m =>
      rw [maps_of_cells hcell] at hm
      simp only [MappingRemoved, hm, if_false]

/-- A mapping from which `D` is removed does not have it. -/
theorem not_maps_of_mappingRemoved {st st' : ImpuStore} {impi D : String}
    (h : MappingRemoved D (st.mappings.cells impi) (st'.mappings.cells impi)) :
    ¬ st'.Maps impi D := by
  rintro ⟨m', hvalue, hmem⟩
  obtain ⟨cas', hcell'⟩ := CasTable.value?_eq_some.mp hvalue
  rw [hcell'] at h
  cases hcell : st.mappings.cells impi with
  | none =>
    rw [hcell] at h
    cases h
  | some p =>
    obtain ⟨cas, blob⟩ := p
    rw [hcell] at h
    cases blob with
    | corrupt => cases h
    | decoded m =>
      simp only [MappingRemoved] at h
      split at h
      · split at h
        · cases h
        · obtain ⟨cas'', hm'⟩ := h
          cases hm'
          simp at hmem
      · rename_i hnot
        cases h
        exact hnot hmem

/-- Removing `D` again changes nothing. -/
theorem DeletedFrom.trans {D : String} {st₁ st₂ st₃ : ImpuStore} (h₁ : DeletedFrom D st₁ st₂)
    (h₂ : DeletedFrom D st₂ st₃) : DeletedFrom D st₁ st₃ where
  record := h₂.record
  associated := h₂.associated
  mapped := h₂.mapped
  impus k hk hp := by
    rw [h₂.impus k hk (h₁.associated k), h₁.impus k hk hp]
  mappings impi := by
    have hsame := (mappingRemoved_of_not_maps (h₁.mapped impi)).mp (h₂.mappings impi)
    rw [hsame]
    exact h₁.mappings impi

/-- The IRS tracks everything that the record of `D` in `st` lists. -/
structure Irs.Tracks (irs : Irs) (D : String) (st : ImpuStore) : Prop where
  associated : ∀ d, st.defaultAt D = some d → ∀ x ∈ d.assocImpu, irs.associatedImpus[x]? ≠ none
  impis : ∀ d, st.defaultAt D = some d → ∀ impi ∈ d.impis, irs.impis[impi]? ≠ none

/-- `irs'` tracks everything that `irs` does. -/
structure Irs.Extends (irs irs' : Irs) : Prop where
  associated : ∀ x : String, irs.associatedImpus[x]? ≠ none → irs'.associatedImpus[x]? ≠ none
  impis : ∀ x : String, irs.impis[x]? ≠ none → irs'.impis[x]? ≠ none

theorem Irs.Tracks.extend {irs irs' : Irs} {D : String} {st : ImpuStore}
    (h : irs.Tracks D st) (he : irs.Extends irs') : irs'.Tracks D st where
  associated d hd x hx := he.associated x (h.associated d hd x hx)
  impis d hd impi himpi := he.impis impi (h.impis d hd impi himpi)

/-- The merge of a refreshed IRS keeps what is tracked and adds what the record lists. -/
theorem Irs.merged_tracks (irs : Irs) (s : StoreId) (st : ImpuStore) (now : Int)
    (hr : irs.refreshed = true) :
    irs.Extends (irs.merged s (st.impus.cells irs.defaultImpu) now) ∧
      (irs.merged s (st.impus.cells irs.defaultImpu) now).Tracks irs.defaultImpu st := by
  unfold Irs.merged
  split
  · rename_i cas d hcell
    have hassoc : (irs.updateFromImpuFromStore (d.fromData irs.defaultImpu cas s)
        now).associatedImpus = irs.associatedImpus.emplaceDeleted d.assocImpu := if_pos hr
    have himpis : (irs.updateFromImpuFromStore (d.fromData irs.defaultImpu cas s) now).impis
        = irs.impis.mergeDataSets d.impis := rfl
    have hdefault : ∀ d', st.defaultAt irs.defaultImpu = some d' → d' = d := by
      intro d' hd'
      rw [ImpuStore.defaultAt_eq_some, CasTable.value?_of_cells hcell] at hd'
      cases hd'
      rfl
    refine ⟨⟨fun x hx => ?_, fun x hx => ?_⟩, ⟨fun d' hd' x hx => ?_, fun d' hd' x hx => ?_⟩⟩
    · rw [hassoc]
      exact Data.tracked_emplaceDeleted.mpr (.inl hx)
    · rw [himpis]
      exact Data.tracked_mergeDataSets.mpr (.inl hx)
    · rw [hassoc, Data.tracked_emplaceDeleted]
      exact .inr (hdefault d' hd' ▸ hx)
    · rw [himpis, Data.tracked_mergeDataSets]
      exact .inr (hdefault d' hd' ▸ hx)
  · rename_i hcell
    -- No `DefaultImpu` record, so there is nothing to track.
    have hnone : ∀ d, st.defaultAt irs.defaultImpu ≠ some d := by
      intro d hd
      rw [ImpuStore.defaultAt_eq_some] at hd
      obtain ⟨cas, hc⟩ := CasTable.value?_eq_some.mp hd
      exact hcell cas d hc
    exact ⟨⟨fun _ hx => hx, fun _ hx => hx⟩,
      ⟨fun d hd => absurd hd (hnone d), fun d hd => absurd hd (hnone d)⟩⟩

/-! ### One store -/

section Delete

variable {irs irs' : Irs} {D : String} {s : StoreId} {w w₁ w' : World}

/-- Once everything is marked as deleted, a tracked key loses its record if it points at the
default IMPU, and any other key keeps it. -/
theorem Updated.removed (hD : irs'.defaultImpu = D)
    (hupd : Updated irs'.deleteAssocImpus.deleteImpis s w₁ w') (x : String) :
    AssociatedRemoved D ((w₁.stores s).impus.cells x) ((w'.stores s).impus.cells x) ∧
        irs'.associatedImpus[x]? ≠ none ∨
      (w'.stores s).impus.cells x = (w₁.stores s).impus.cells x ∧
        irs'.associatedImpus[x]? = none := by
  have hstate : irs'.deleteAssocImpus.deleteImpis.associatedImpus[x]?
      = irs'.associatedImpus[x]?.map fun _ => State.deleted := Data.getElem?_deleteTracked _ x
  have heffect := hupd.impus x
  unfold AssociatedEffect at heffect
  rw [hstate] at heffect
  cases hx : irs'.associatedImpus[x]? with
  | none =>
    rw [hx] at heffect
    exact .inr ⟨heffect, rfl⟩
  | some st =>
    rw [hx] at heffect
    refine .inl ⟨?_, nofun⟩
    rw [← show irs'.deleteAssocImpus.deleteImpis.defaultImpu = D from hD]
    exact heffect

/-- The same for the mappings. -/
theorem Updated.mappingRemoved (hD : irs'.defaultImpu = D)
    (hupd : Updated irs'.deleteAssocImpus.deleteImpis s w₁ w') (impi : String) :
    MappingRemoved D ((w₁.stores s).mappings.cells impi) ((w'.stores s).mappings.cells impi) ∨
      (w'.stores s).mappings.cells impi = (w₁.stores s).mappings.cells impi ∧
        irs'.impis[impi]? = none := by
  have hstate : irs'.deleteAssocImpus.deleteImpis.impis[impi]?
      = irs'.impis[impi]?.map fun _ => State.deleted := Data.getElem?_deleteTracked _ impi
  have heffect := hupd.mappings impi
  unfold MappingEffect at heffect
  rw [hstate] at heffect
  cases hx : irs'.impis[impi]? with
  | none =>
    rw [hx] at heffect
    exact .inr ⟨heffect, rfl⟩
  | some st =>
    rw [hx] at heffect
    refine .inl ?_
    rw [← show irs'.deleteAssocImpus.deleteImpis.defaultImpu = D from hD]
    exact heffect

/-- A record that does not point at `D` is not removed for it. -/
theorem AssociatedRemoved.eq_of_not_pointsAt {st : ImpuStore} {x : String}
    {v' : Option (Nat × Blob ImpuData)} (h : AssociatedRemoved D (st.impus.cells x) v')
    (hp : ¬ st.PointsAt x D) : v' = st.impus.cells x := by
  unfold AssociatedRemoved at h
  split at h
  · rename_i cas D' expiry hcell
    split at h
    · rename_i hD'
      subst hD'
      exact absurd ⟨expiry, CasTable.value?_of_cells hcell⟩ hp
    · exact h
  · exact h

/-- The effects of a delete, once everything that the record listed is tracked. -/
theorem deletedFrom_of_updated (hcons : TwoWay irs.defaultImpu (w.stores s))
    (hdel : RecordDeleted irs s w w₁) (hD : irs'.defaultImpu = irs.defaultImpu)
    (htracks : irs'.Tracks irs.defaultImpu (w.stores s))
    (hupd : Updated irs'.deleteAssocImpus.deleteImpis s w₁ w') :
    DeletedFrom irs.defaultImpu (w.stores s) (w'.stores s) := by
  let D := irs.defaultImpu
  -- The record at `D` is a `DefaultImpu` or absent, so the first operation removes it.
  have hgone : (w₁.stores s).impus.cells D = none := by
    rcases hdel.gone with hgone | ⟨-, hcor, -⟩
    · exact hgone
    · obtain ⟨d, hd⟩ := hcons.record _ hcor
      cases hd
  have hrecord : (w'.stores s).impus.cells D = none := by
    rcases hupd.removed hD D with ⟨h, -⟩ | ⟨h, -⟩
    · rw [hgone] at h
      exact h
    · rw [h, hgone]
  have hpoints : ∀ x, x ≠ D → (w.stores s).PointsAt x D →
      (w'.stores s).impus.cells x = none := by
    intro x hx hp
    obtain ⟨d, hd, hmem⟩ := (hcons.associated x).mp hp
    obtain ⟨expiry, hvalue⟩ := hp
    obtain ⟨cas, hcell⟩ := CasTable.value?_eq_some.mp hvalue
    rcases hupd.removed (D := D) hD x with ⟨h, -⟩ | ⟨-, hnone⟩
    · rw [hdel.others x hx, hcell] at h
      simpa [AssociatedRemoved] using h
    · exact absurd hnone (htracks.associated d hd x hmem)
  have hothers : ∀ x, x ≠ D → ¬ (w.stores s).PointsAt x D →
      (w'.stores s).impus.cells x = (w.stores s).impus.cells x := by
    intro x hx hp
    have hsame := hdel.others x hx
    rcases hupd.removed hD x with ⟨h, -⟩ | ⟨h, -⟩
    · rw [hsame] at h
      exact h.eq_of_not_pointsAt hp
    · rw [h, hsame]
  have hmapped : ∀ impi, MappingRemoved D ((w.stores s).mappings.cells impi)
      ((w'.stores s).mappings.cells impi) := by
    intro impi
    have hremoved := hupd.mappingRemoved hD impi
    rw [hdel.only.mappings] at hremoved
    rcases hremoved with h | ⟨h, hnone⟩
    · exact h
    · -- An untracked IMPI is not listed, so its mapping does not have `D`.
      refine (mappingRemoved_of_not_maps fun hm => ?_).mpr h
      obtain ⟨d, hd, hmem⟩ := (hcons.mapped impi).mp hm
      exact htracks.impis d hd impi hmem hnone
  refine ⟨hrecord, fun x hp => ?_, fun impi hm => ?_, hothers, hmapped⟩
  · obtain ⟨expiry, hvalue⟩ := hp
    by_cases hx : x = D
    · subst hx
      rw [CasTable.value?_eq_none.mpr hrecord] at hvalue
      cases hvalue
    · by_cases hp' : (w.stores s).PointsAt x D
      · rw [CasTable.value?_eq_none.mpr (hpoints x hx hp')] at hvalue
        cases hvalue
      · obtain ⟨cas, hcell⟩ := CasTable.value?_eq_some.mp hvalue
        rw [hothers x hx hp'] at hcell
        exact hp' ⟨expiry, CasTable.value?_of_cells hcell⟩
  · exact not_maps_of_mappingRemoved (hmapped impi) hm

end Delete

/-- `delete_irs_action` on one two-way consistent store. -/
theorem eval_deleteIrsAction_complete {irs : Irs} {s : StoreId} {w : World}
    (hcons : TwoWay irs.defaultImpu (w.stores s))
    (htracks : irs.store = some s → irs.Tracks irs.defaultImpu (w.stores s)) :
    ∃ irs' w', Eval serve (deleteIrsAction irs s) w (.ok, irs') w' ∧
      DeletedFrom irs.defaultImpu (w.stores s) (w'.stores s) ∧
      (∀ s', s' ≠ s → w'.stores s' = w.stores s') ∧
      irs'.defaultImpu = irs.defaultImpu ∧ irs'.store = irs.store ∧ irs.Extends irs' := by
  obtain ⟨irs', w₁, w', he, hdel, hirs', hupd⟩ := eval_deleteIrsAction irs s w
  have hkey : irs'.defaultImpu = irs.defaultImpu ∧ irs'.store = irs.store ∧ irs.Extends irs' ∧
      irs'.Tracks irs.defaultImpu (w.stores s) := by
    rcases hirs' with ⟨hstore, rfl⟩ | ⟨-, now, rfl⟩
    · exact ⟨rfl, rfl, ⟨fun _ hx => hx, fun _ hx => hx⟩,
        (htracks hstore).extend ⟨fun _ hx => hx, fun _ hx => hx⟩⟩
    · obtain ⟨hext, htr⟩ := irs.markAsRefreshed.merged_tracks s (w.stores s) now rfl
      exact ⟨Irs.merged_defaultImpu _ _ _ _, Irs.merged_store _ _ _ _,
        ⟨hext.associated, hext.impis⟩, htr⟩
  obtain ⟨hD, hstore, hext, htr⟩ := hkey
  refine ⟨_, w', he, deletedFrom_of_updated hcons hdel hD htr hupd, fun s' hs' => ?_, hD, hstore,
    ⟨fun x hx => ?_, fun x hx => ?_⟩⟩
  · rw [hupd.stores s' hs', hdel.only.stores s' hs']
  · show irs'.associatedImpus.deleteTracked[x]? ≠ none
    rw [Data.getElem?_deleteTracked]
    simpa using hext.associated x hx
  · show irs'.impis.deleteTracked[x]? ≠ none
    rw [Data.getElem?_deleteTracked]
    simpa using hext.impis x hx

/-! ### All the stores -/

/-- In the middle of a deletion that started at `w`: the stores in `done` have had it, the
others are as they were, and the IRS object, which is from the store `s₀`, tracks what the
record there listed. -/
structure DeleteInv (D : String) (w : World) (s₀ : StoreId) (done : List StoreId) (irs : Irs)
    (v : World) : Prop where
  key : irs.defaultImpu = D
  store : irs.store = some s₀
  tracks : irs.Tracks D (w.stores s₀)
  deleted : ∀ s ∈ done, DeletedFrom D (w.stores s) (v.stores s)
  rest : ∀ s, s ∉ done → v.stores s = w.stores s

/-- One more store. A store that is in the list twice is deleted from twice. -/
theorem DeleteInv.step {D : String} {w v : World} {s₀ s : StoreId} {done : List StoreId}
    {irs : Irs} (hinv : DeleteInv D w s₀ done irs v) (hcons : TwoWay D (w.stores s)) :
    ∃ irs' v', Eval serve (deleteIrsAction irs s) v (.ok, irs') v' ∧
      DeleteInv D w s₀ (s :: done) irs' v' := by
  have hkey := hinv.key
  have hcons' : TwoWay irs.defaultImpu (v.stores s) := by
    rw [hkey]
    by_cases hs : s ∈ done
    · exact (hinv.deleted s hs).twoWay
    · rw [hinv.rest s hs]
      exact hcons
  have htracks : irs.store = some s → irs.Tracks irs.defaultImpu (v.stores s) := by
    intro hstore
    rw [hinv.store] at hstore
    cases hstore
    rw [hkey]
    by_cases hs : s₀ ∈ done
    · -- The record is gone already.
      have hnone : ∀ d, (v.stores s₀).defaultAt D ≠ some d := by
        intro d
        unfold ImpuStore.defaultAt
        rw [CasTable.value?_eq_none.mpr (hinv.deleted s₀ hs).record]
        exact nofun
      exact ⟨fun d hd => absurd hd (hnone d), fun d hd => absurd hd (hnone d)⟩
    · rw [hinv.rest s₀ hs]
      exact hinv.tracks
  obtain ⟨irs', v', he, hdel, hframe, hD, hstore, hext⟩ :=
    eval_deleteIrsAction_complete hcons' htracks
  rw [hkey] at hdel
  -- A store that was done before stays done when it comes again.
  refine ⟨irs', v', he, hD.trans hkey, hstore.trans hinv.store, hinv.tracks.extend hext, ?_, ?_⟩
  · intro s' hs'
    by_cases heq : s' = s
    · subst heq
      by_cases hdone : s' ∈ done
      · exact (hinv.deleted s' hdone).trans hdel
      · rw [hinv.rest s' hdone] at hdel
        exact hdel
    · rw [hframe s' heq]
      exact hinv.deleted s' ((List.mem_cons.mp hs').resolve_left heq)
  · intro s' hs'
    rw [List.mem_cons, not_or] at hs'
    rw [hframe s' hs'.1]
    exact hinv.rest s' hs'.2

/-- The loop over the remote stores. -/
theorem eval_deleteRemotes {D : String} {w v : World} {s₀ : StoreId} {irs : Irs}
    {done : List StoreId} (remoteStores : List StoreId)
    (hcons : ∀ s ∈ remoteStores, TwoWay D (w.stores s)) (hinv : DeleteInv D w s₀ done irs v) :
    ∃ irs' v', Eval serve (Prog.forEach remoteStores
        (fun remoteStore irs => do
          let inner ← deleteIrsAction irs remoteStore
          pure inner.2) irs) v irs' v' ∧
      DeleteInv D w s₀ (remoteStores.reverse ++ done) irs' v' := by
  induction remoteStores generalizing irs v done with
  | nil => exact ⟨irs, v, .ret _ _, hinv⟩
  | cons s rs ih =>
    obtain ⟨irs₁, v₁, he₁, hinv₁⟩ := hinv.step (hcons s List.mem_cons_self)
    obtain ⟨irs', v', he', hinv'⟩ :=
      ih (fun s' hs' => hcons s' (List.mem_cons_of_mem _ hs')) hinv₁
    have hbody : Eval serve (deleteIrsAction irs s >>= fun inner => pure inner.2) v irs₁ v₁ :=
      he₁.bind (.ret _ _)
    refine ⟨irs', v', hbody.bind he', ?_⟩
    rw [List.reverse_cons, List.append_assoc]
    exact hinv'

/-- The IRS that a lookup of `D` returns is read from a record at `D` of some store. -/
theorem irs_of_lookup {cache : MemcachedCache} {D : String} {w w₀ : World} {irs : Irs}
    (hcons : ∀ s ∈ cache.localStore :: cache.remoteStores, TwoWay D (w.stores s))
    (hget : Eval serve (cache.getImplicitRegistrationSetForImpu D) w (.ok, some irs) w₀) :
    w₀.stores = w.stores ∧ ∃ s d cas, (w.stores s).defaultAt D = some d ∧
      irs = Irs.ofDefaultImpu (d.fromData D cas s) (w.clock 0) := by
  have hanswer := cache.isAnswer_defaultImpuFor w D
  generalize hd : cache.defaultImpuFor w D = found at hanswer
  cases hanswer with
  | found d =>
    obtain ⟨heq, rfl⟩ := hget.det (MemcachedCache.eval_getImplicitRegistrationSetForImpu_ok hd)
    cases heq
    obtain ⟨r, hr⟩ := MemcachedCache.impuGr_of_defaultImpuFor hd
    -- No store holds anything but a `DefaultImpu` at `D`.
    obtain ⟨s, hs, hread⟩ := MemcachedCache.exists_store_of_impuGr hr
    obtain ⟨cas, data, hcell, rfl⟩ := ImpuStore.cells_of_getImpu hread
    obtain ⟨data, hdata⟩ := (hcons s hs).record _ (CasTable.value?_of_cells hcell)
    cases hdata
    unfold MemcachedCache.defaultImpuFor at hd
    rw [hr] at hd
    cases hd
    exact ⟨rfl, s, data, cas,
      ImpuStore.defaultAt_eq_some.mpr (CasTable.value?_of_cells hcell), rfl⟩
  | notFound =>
    obtain ⟨heq, -⟩ := hget.det
      (MemcachedCache.eval_getImplicitRegistrationSetForImpu_ne hd (by decide))
    cases heq
  | error =>
    obtain ⟨heq, -⟩ := hget.det
      (MemcachedCache.eval_getImplicitRegistrationSetForImpu_ne hd (by decide))
    cases heq

/-- Deletion is complete and touches nothing else: for the IRS that the lookup of `D`
returned, the delete answers `OK`, every store has lost all of `D` and nothing more, and no
store outside the cache has changed. -/
theorem delete_complete {cache : MemcachedCache} {D : String} {w w₀ : World} {irs : Irs}
    (hcons : ∀ s ∈ cache.localStore :: cache.remoteStores, TwoWay D (w.stores s))
    (hget : Eval serve (cache.getImplicitRegistrationSetForImpu D) w (.ok, some irs) w₀) :
    ∃ irs' w', Eval serve (cache.deleteImplicitRegistrationSet irs) w₀ (.ok, irs') w' ∧
      (∀ s ∈ cache.localStore :: cache.remoteStores,
        DeletedFrom D (w.stores s) (w'.stores s)) ∧
      ∀ s, s ∉ cache.localStore :: cache.remoteStores → w'.stores s = w.stores s := by
  obtain ⟨hw₀, s₀, d, cas, hd, rfl⟩ := irs_of_lookup hcons hget
  let irs := Irs.ofDefaultImpu (d.fromData D cas s₀) (w.clock 0)
  -- The IRS comes from the record, so it lists all that the record does.
  have htracks : irs.Tracks D (w.stores s₀) := by
    constructor
    · intro d' hd' x hx
      rw [hd] at hd'
      cases hd'
      show (Data.ofStored d.assocImpu)[x]? ≠ none
      rw [Data.getElem?_ofStored, if_pos hx]
      exact nofun
    · intro d' hd' x hx
      rw [hd] at hd'
      cases hd'
      show (Data.ofStored d.impis)[x]? ≠ none
      rw [Data.getElem?_ofStored, if_pos hx]
      exact nofun
  have hinit : DeleteInv D w s₀ [] irs w₀ :=
    ⟨rfl, rfl, htracks, fun _ hs => absurd hs List.not_mem_nil, fun s _ => by rw [hw₀]⟩
  -- The local store first, then the remote ones with the IRS that it left.
  obtain ⟨irs₁, w₁, he₁, hinv₁⟩ := hinit.step (hcons cache.localStore List.mem_cons_self)
  obtain ⟨irs', w', he', hinv'⟩ := eval_deleteRemotes cache.remoteStores
    (fun s hs => hcons s (List.mem_cons_of_mem _ hs)) hinv₁
  have hmem : ∀ s, s ∈ cache.remoteStores.reverse ++ [cache.localStore] ↔
      s ∈ cache.localStore :: cache.remoteStores := by
    intro s
    simp [or_comm]
  refine ⟨irs', w', he₁.bind ((eval_progressCb w₁).bind (he'.bind (.ret _ _))), ?_, ?_⟩
  · exact fun s hs => hinv'.deleted s ((hmem s).mpr hs)
  · exact fun s hs => hinv'.rest s (mt (hmem s).mp hs)

/-- A subscriber's record with one associated IMPU and one IMPI. -/
def subscriberData : DefaultImpuData where
  registrationState := true
  serviceProfile := ""
  expiry := 100
  assocImpu := ["sip:a@example.com"]
  impis := ["impi@example.com"]
  ecfs := []
  ccfs := []

/-- A local store with the subscriber's record, and a mapping shared with another one. -/
def sharedMappingStore : ImpuStore where
  impus := (CasTable.empty.put "sip:d@example.com" (.decoded (.default subscriberData))).put
    "sip:a@example.com" (.decoded (.associated "sip:d@example.com" 100))
  mappings := CasTable.empty.put "impi@example.com" (.decoded
    { defaultImpus := ["sip:other@example.com", "sip:d@example.com"], expiry := 100 })

theorem twoWay_sharedMappingStore : TwoWay "sip:d@example.com" sharedMappingStore := by
  have hdefault : sharedMappingStore.defaultAt "sip:d@example.com" = some subscriberData := by
    decide
  refine ⟨fun blob hblob => ?_, fun x => ?_, fun impi => ?_⟩
  · have hvalue : sharedMappingStore.impus.value? "sip:d@example.com"
        = some (.decoded (.default subscriberData)) := by decide
    rw [hvalue] at hblob
    exact ⟨subscriberData, (Option.some.inj hblob).symm⟩
  · -- A key is that of the alias, of the record, or of nothing.
    rw [hdefault]
    simp only [Option.some.injEq, exists_eq_left']
    simp only [ImpuStore.PointsAt, sharedMappingStore, CasTable.put_value?, subscriberData,
      List.mem_singleton]
    split
    · rename_i hx
      simp [hx]
    · rename_i hx
      split
      · simp [hx]
      · simp [hx, CasTable.value?, CasTable.empty]
  · rw [hdefault]
    simp only [Option.some.injEq, exists_eq_left']
    simp only [ImpuStore.Maps, sharedMappingStore, CasTable.put_value?, subscriberData,
      List.mem_singleton]
    split
    · rename_i hx
      simp [hx]
    · rename_i hx
      simp [hx, CasTable.value?, CasTable.empty]

/-- The subscriber is deleted from the local store and from an empty remote one. -/
theorem delete_complete_sharedMapping :
    ∃ irs irs' w', Eval serve
        (MemcachedCache.deleteImplicitRegistrationSet ⟨0, [1]⟩ irs)
        { stores := fun s => if s = 0 then sharedMappingStore else .empty, clock := fun _ => 0 }
        (.ok, irs') w' ∧
      DeletedFrom "sip:d@example.com" sharedMappingStore (w'.stores 0) := by
  let w : World :=
    { stores := fun s => if s = 0 then sharedMappingStore else .empty, clock := fun _ => 0 }
  have hempty : TwoWay "sip:d@example.com" .empty := by
    refine ⟨nofun, fun x => ?_, fun impi => ?_⟩
    · simp [ImpuStore.PointsAt, ImpuStore.defaultAt, ImpuStore.empty, CasTable.value?,
        CasTable.empty]
    · simp [ImpuStore.Maps, ImpuStore.defaultAt, ImpuStore.empty, CasTable.value?,
        CasTable.empty]
  have hcons : ∀ s ∈ [0, 1], TwoWay "sip:d@example.com" (w.stores s) := by
    intro s hs
    simp only [List.mem_cons, List.not_mem_nil, or_false] at hs
    rcases hs with rfl | rfl
    · exact twoWay_sharedMappingStore
    · exact hempty
  have hfound : MemcachedCache.defaultImpuFor ⟨0, [1]⟩ w "sip:d@example.com"
      = (.ok, some (subscriberData.fromData "sip:d@example.com" 1 0)) := by decide
  obtain ⟨irs', w', he, hdel, -⟩ := @delete_complete ⟨0, [1]⟩ _ w _ _ hcons
    (MemcachedCache.eval_getImplicitRegistrationSetForImpu_ok hfound)
  exact ⟨_, irs', w', he, hdel 0 List.mem_cons_self⟩

end Homestead

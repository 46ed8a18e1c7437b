import Homestead.Proofs.SoloPut

/-!
# `Homestead.Proofs.PutTerminates`: on which stores a put ends

A store can hold bytes that `from_data` does not decode. The retry loops of
`perform_irs_impu_action` and of the refresh of an IMPI mapping treat a failed read as an
absent key, and then write with the CAS value 0, which hits contention because the key
holds data. The loop that adds a mapping tells the two apart and gives up.

* `PutDecodes` is the condition on the IRS and the store under which a put ends.
* `put_and_delete_terminate_iff` says that it is exactly the condition. A delete ends on
  every store.
-/

set_option autoImplicit false

namespace Homestead

open CacheProg

/-- The put of a refreshed IRS refreshes the mapping of `impi`. For an existing IRS that is
not current, the IMPIs of the stored record that the user did not touch count, and
otherwise the unchanged IMPIs of the IRS. -/
def RefreshesMapping (irs : Irs) (s : StoreId) (w : World) (impi : String) : Prop :=
  (irs.existing = true ∧ ¬ irs.IsCurrent s w ∧ ∃ d, (w.stores s).defaultAt irs.defaultImpu = some d
      ∧ impi ∈ d.impis ∧ (irs.impis[impi]? = none ∨ irs.impis[impi]? = some .unchanged)) ∨
    irs.impis[impi]? = some .unchanged ∧
      (irs.existing = false ∨ irs.IsCurrent s w ∨
        (w.stores s).defaultAt irs.defaultImpu = none)

/-- Nothing that a put re-reads fails to decode: not the record of an existing IRS that is
not current, and not a mapping that a refreshed IRS refreshes. -/
structure PutDecodes (irs : Irs) (s : StoreId) (w : World) : Prop where
  record : irs.existing = true → irs.IsCurrent s w ∨
    (w.stores s).impus.value? irs.defaultImpu ≠ some .corrupt
  mappings : irs.refreshed = true → ∀ impi, RefreshesMapping irs s w impi →
    (w.stores s).mappings.value? impi ≠ some .corrupt

/-! ### The refresh loop on a mapping that does not decode -/

/-- The refresh of other mappings leaves a mapping that does not decode as it is. -/
theorem corrupt_of_refreshMapping {irs : Irs} {s : StoreId} {impi k : String} {st b : Status}
    {w w' : World} (hcor : (w.stores s).mappings.value? impi = some .corrupt)
    (he : Eval serve (refreshMapping irs s k st) w b w') :
    (w'.stores s).mappings.value? impi = some .corrupt := by
  by_cases hdec : (w.stores s).mappings.value? k = some .corrupt
  · exact absurd he (not_eval_refreshMapping irs s k st hdec b w')
  · obtain ⟨w₁, he₁, -, -, -, hothers⟩ := eval_refreshMapping irs s k st hdec
    obtain ⟨-, rfl⟩ := he.det he₁
    have hne : impi ≠ k := by
      intro heq
      rw [heq] at hcor
      exact hdec hcor
    rw [mappings_value?_congr (hothers impi hne)]
    exact hcor

/-- `update_irs_impi_mappings` of a refreshed IRS does not end when the mapping of an
unchanged IMPI does not decode. -/
theorem not_eval_updateIrsImpiMappings {irs : Irs} {s : StoreId} {w : World} {impi : String}
    (hr : irs.refreshed = true) (hst : irs.impis[impi]? = some .unchanged)
    (hcor : (w.stores s).mappings.value? impi = some .corrupt) (b : Status) (w' : World) :
    ¬ Eval serve (updateIrsImpiMappings irs s) w b w' := by
  intro he
  rw [updateIrsImpiMappings_eq] at he
  obtain ⟨st₁, w₁, he₁, hrest⟩ := he.bind_inv
  obtain ⟨st₂, w₂, he₂, -⟩ := hrest.bind_inv
  -- The removals before it do not touch the mapping of an unchanged IMPI.
  obtain ⟨w₁', he₁', -, -, hkept⟩ := eval_removeMappings irs s w
  obtain ⟨-, rfl⟩ := he₁.det he₁'
  have hcor₁ : (w₁.stores s).mappings.value? impi = some .corrupt := by
    rw [mappings_value?_congr (hkept impi (Irs.notMem_impisIn (by simp [hst])))]
    exact hcor
  rw [if_pos hr] at he₂
  exact Eval.not_forEach (fun v => (v.stores s).mappings.value? impi = some .corrupt) impi
    (fun _ _ _ _ _ hv he => corrupt_of_refreshMapping hv he)
    (fun st v st' v' hv => not_eval_refreshMapping irs s impi st hv st' v')
    (Data.mem_elementsInState.mpr hst) hcor₁ he₂

/-! ### The first operation of a put -/

/-- The unchanged IMPIs of the IRS that the first operation leaves are the ones whose
mappings the put refreshes. -/
theorem eval_putIrsImpu_refreshes {irs : Irs} {s : StoreId} {w : World}
    (hdec : irs.existing = true → irs.IsCurrent s w ∨
      (w.stores s).impus.value? irs.defaultImpu ≠ some .corrupt) :
    ∃ status irs' w₁, Eval serve (putIrsImpu irs s) w (status, irs') w₁ ∧
      (w₁.stores s).mappings = (w.stores s).mappings ∧
      (irs.refreshed = true → status = .ok) ∧ irs'.refreshed = irs.refreshed ∧
      (irs.refreshed = true → ∀ impi, irs'.impis[impi]? = some .unchanged ↔
        RefreshesMapping irs s w impi) := by
  unfold putIrsImpu
  cases hex : irs.existing with
  | false =>
    obtain ⟨w₁, he, hcase⟩ := eval_createIrsImpu irs s w
    have hmap : (w₁.stores s).mappings = (w.stores s).mappings := by
      rcases hcase with ⟨hwritten, -⟩ | ⟨-, -, hsame⟩
      · exact hwritten.only.mappings
      · rw [hsame]
    -- A new IRS is put as it is.
    refine ⟨.ok, irs, w₁, he.bind (.ret _ _), hmap, fun _ => rfl, rfl, fun _ impi => ?_⟩
    simp [RefreshesMapping, hex]
  | true =>
    obtain ⟨status, irs', w₁, he, hcase⟩ := eval_updateIrsImpu irs s (hdec hex)
    rcases hcase with ⟨rfl, hwritten, hirs'⟩ | ⟨rfl, rfl, ⟨hr, -⟩, -, hsame⟩
    · -- Written as it was, or merged with the record of the store first.
      rcases hirs' with ⟨hcur, rfl⟩ | ⟨hcur, -, now, rfl⟩
      · refine ⟨.ok, irs', w₁, he, hwritten.only.mappings, fun _ => rfl, rfl, fun _ impi => ?_⟩
        simp [RefreshesMapping, hex, hcur]
      · refine ⟨.ok, _, w₁, he, hwritten.only.mappings, fun _ => rfl,
          Irs.merged_refreshed _ _ _ _, fun _ impi => ?_⟩
        simp only [RefreshesMapping, hex, hcur, not_false_iff, true_and, Bool.true_eq_false,
          false_or]
        unfold Irs.merged
        split
        · rename_i cas d hcell
          have hd : (w.stores s).defaultAt irs.defaultImpu = some d :=
            ImpuStore.defaultAt_eq_some.mpr (CasTable.value?_of_cells hcell)
          show (irs.impis.mergeDataSets d.impis)[impi]? = some .unchanged ↔ _
          rw [Data.mergeDataSets_unchanged, hd]
          simp
        · rename_i hcell
          have hd : (w.stores s).defaultAt irs.defaultImpu = none := by
            rw [Option.eq_none_iff_forall_ne_some]
            intro d hd
            obtain ⟨cas, hc⟩ := CasTable.value?_eq_some.mp (ImpuStore.defaultAt_eq_some.mp hd)
            exact hcell cas d hc
          rw [hd]
          simp
    · -- Only an IRS that is not refreshed can fail.
      refine ⟨.error, irs', w₁, he, by rw [hsame], fun hr' => ?_, rfl, fun hr' => ?_⟩
      · rw [hr] at hr'
        cases hr'
      · rw [hr] at hr'
        cases hr'

/-- A put ends exactly when everything it re-reads decodes. -/
theorem putIrsAction_terminates_iff (irs : Irs) (s : StoreId) (w : World) :
    (∃ r w', Eval serve (putIrsAction irs s) w r w') ↔ PutDecodes irs s w := by
  constructor
  · rintro ⟨r, w', he⟩
    obtain ⟨put, w₁, hput, hrest⟩ := he.bind_inv
    have hrecord : irs.existing = true → irs.IsCurrent s w ∨
        (w.stores s).impus.value? irs.defaultImpu ≠ some .corrupt := by
      intro hex
      by_contra hnot
      rw [not_or, not_not] at hnot
      unfold putIrsImpu at hput
      rw [if_pos hex] at hput
      exact not_eval_updateIrsImpu irs s hnot.1 hnot.2 _ _ hput
    refine ⟨hrecord, fun hr impi himpi hcor => ?_⟩
    -- The run is cut at the refresh of the mappings, which would not come to an end.
    obtain ⟨status, irs', w₁', hput', hmap, hok, hr', hunch⟩ := eval_putIrsImpu_refreshes hrecord
    obtain ⟨rfl, rfl⟩ := hput.det hput'
    rw [hok hr] at hrest
    obtain ⟨_, w₂, hassoc, hrest⟩ := hrest.bind_inv
    obtain ⟨_, w₃, himpis, -⟩ := hrest.bind_inv
    obtain ⟨w₂', hassoc', honly, -⟩ := eval_updateIrsAssociatedImpus irs' s w₁
    obtain ⟨-, rfl⟩ := hassoc.det hassoc'
    refine not_eval_updateIrsImpiMappings (hr'.trans hr) ((hunch hr impi).mpr himpi) ?_ _ _ himpis
    rw [honly.mappings, hmap]
    exact hcor
  · intro hdec
    obtain ⟨status, irs', w₁, hput, hmap, -, hr', hunch⟩ := eval_putIrsImpu_refreshes hdec.record
    by_cases hstatus : status = .ok
    · subst hstatus
      have hrefresh : RefreshDecodable irs' s w₁ := by
        intro hr impi hst
        rw [hr'] at hr
        rw [hmap]
        exact hdec.mappings hr impi ((hunch hr impi).mp hst)
      obtain ⟨w', he, -⟩ := eval_putIrsAction hput hrefresh
      exact ⟨_, w', he⟩
    · exact ⟨_, w₁, eval_putIrsAction_of_ne hput hstatus⟩

/-- A store whose record of the subscriber does not decode. -/
def corruptRecordWorld : World :=
  World.setImpus { stores := fun _ => .empty, clock := fun _ => 0 } 1
    (CasTable.empty.put "sip:d@example.com" .corrupt)

/-- An IRS that was read from the local store 0. -/
def localSiteIrs : Irs :=
  Irs.ofDefaultImpu
    { impu := "sip:d@example.com", associatedImpus := [], impis := []
      registrationState := .registered, chargingAddresses := {}, serviceProfile := "", cas := 3
      expiry := 100, store := some 0 } 0

end Homestead

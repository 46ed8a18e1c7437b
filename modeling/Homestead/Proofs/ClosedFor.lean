import Homestead.Proofs.Setters
import Homestead.Proofs.SoloPut

/-!
# `Homestead.Proofs.ClosedFor`: forward closure for one default IMPU

`ClosedFor D` says that the `DefaultImpu` record `D` of a store, if there is one, is backed:
each associated IMPU it lists has a record that points at `D`, and each IMPI it lists a mapping
with `D`.

`closedFor_of_updated` is one store after a put has written the record of the IRS and updated the
rest. What the IRS has added was written. What it has unchanged was written only if it is
refreshed, and has to be there already otherwise.
-/

set_option autoImplicit false

namespace Homestead

/-- Forward closure for the default IMPU `D`. -/
def ClosedFor (D : String) (st : ImpuStore) : Prop :=
  ∀ d, st.defaultAt D = some d →
    (∀ x ∈ d.assocImpu, st.PointsAt x D) ∧ ∀ impi ∈ d.impis, st.Maps impi D

/-- A record of a closed store does not list its own default IMPU, which cannot be associated
as well. -/
theorem ClosedFor.notMem {D : String} {st : ImpuStore} {d : DefaultImpuData}
    (h : ClosedFor D st) (hd : st.defaultAt D = some d) : D ∉ d.assocImpu := by
  intro hmem
  obtain ⟨expiry, hvalue⟩ := (h d hd).1 D hmem
  rw [ImpuStore.defaultAt_eq_some.mp hd] at hvalue
  cases hvalue

theorem closedFor_of_none {D : String} {st : ImpuStore} (h : st.defaultAt D = none) :
    ClosedFor D st := by
  intro d hd
  rw [h] at hd
  cases hd

/-- What an IRS tracks. -/
structure Elements where
  associatedImpus : Data
  impis : Data

def Irs.elements (irs : Irs) : Elements := ⟨irs.associatedImpus, irs.impis⟩

/-- The store has a record or a mapping for everything that is unchanged. -/
structure Elements.Backed (e : Elements) (D : String) (st : ImpuStore) : Prop where
  associatedImpus : ∀ x : String, e.associatedImpus[x]? = some .unchanged → st.PointsAt x D
  impis : ∀ impi : String, e.impis[impi]? = some .unchanged → st.Maps impi D

theorem PointsAt.congr {st st' : ImpuStore} {x D : String} (h : st.PointsAt x D)
    (hcell : st'.impus.cells x = st.impus.cells x) : st'.PointsAt x D := by
  obtain ⟨expiry, hvalue⟩ := h
  refine ⟨expiry, ?_⟩
  rw [CasTable.value?, hcell]
  exact hvalue

theorem Maps.congr {st st' : ImpuStore} {impi D : String} (h : st.Maps impi D)
    (hmap : st'.mappings = st.mappings) : st'.Maps impi D := by
  unfold ImpuStore.Maps at *
  rw [hmap]
  exact h

section Store

variable {D : String} {irs : Irs} {s : StoreId} {w w₁ w' : World}

/-- An unchanged IMPI of an IRS that is not refreshed keeps its mapping. -/
theorem Updated.mappings_of_unchanged (hu : Updated irs s w₁ w') {impi : String}
    (hx : irs.impis[impi]? = some .unchanged) (hr : irs.refreshed = false) :
    (w'.stores s).mappings.cells impi = (w₁.stores s).mappings.cells impi := by
  have heffect := hu.mappings impi
  unfold MappingEffect at heffect
  rw [hx] at heffect
  simpa [hr] using heffect

theorem PointsAt.iff_of_cells {st st' : ImpuStore} {x E : String}
    (hcell : st'.impus.cells x = st.impus.cells x) : st'.PointsAt x E ↔ st.PointsAt x E :=
  ⟨fun h => PointsAt.congr h hcell.symm, fun h => PointsAt.congr h hcell⟩

/-- The store after the record of the IRS was written and the rest was updated. It lists what
is unchanged or added. What is added was written, and what is unchanged only by an IRS that is
refreshed. -/
theorem closedFor_of_updated (hfor : IsFor D irs) (hdec : (w.stores s).Decodable)
    (hwritten : RecordWritten irs s w w₁) (hupd : Updated irs s w₁ w') :
    ClosedFor D (w'.stores s) ↔
      irs.refreshed = true ∨ irs.elements.Backed D (w.stores s) := by
  obtain rfl := hfor.defaultImpu
  obtain ⟨cas, expiry, hcell⟩ := hwritten.written
  have hrecord : (w'.stores s).defaultAt irs.defaultImpu = some (irs.recordData expiry) := by
    rw [ImpuStore.defaultAt_eq_some, CasTable.value?, hupd.cells_of_untracked hfor.untracked,
      hcell]
    rfl
  -- A tracked key is another one than that of the record.
  have hcells : ∀ x : String, irs.associatedImpus[x]? = some .unchanged → irs.refreshed = false →
      (w'.stores s).impus.cells x = (w.stores s).impus.cells x := by
    intro x hx hr
    have hne : x ≠ irs.defaultImpu := by
      rintro rfl
      rw [hfor.untracked] at hx
      cases hx
    rw [hupd.cells_of_unchanged hx hr, hwritten.others x hne]
  have hmappings : ∀ impi : String, irs.impis[impi]? = some .unchanged → irs.refreshed = false →
      ((w'.stores s).Maps impi irs.defaultImpu ↔ (w.stores s).Maps impi irs.defaultImpu) := by
    intro impi hx hr
    unfold ImpuStore.Maps CasTable.value?
    rw [hupd.mappings_of_unchanged hx hr, hwritten.only.mappings]
  constructor
  · intro hclosed
    obtain ⟨hassoc, himpis⟩ := hclosed _ hrecord
    cases hr : irs.refreshed with
    | true => exact .inl rfl
    | false =>
      refine .inr ⟨fun x hx => ?_, fun impi hx => ?_⟩
      · have hlisted : x ∈ irs.getAssociatedImpus := Data.mem_present.mpr (.inl hx)
        exact (PointsAt.iff_of_cells (hcells x hx hr)).mp (hassoc x hlisted)
      · have hlisted : impi ∈ irs.getAssociatedImpis := Data.mem_present.mpr (.inl hx)
        exact (hmappings impi hx hr).mp (himpis impi hlisted)
  · intro hcond d hd
    rw [hrecord] at hd
    cases hd
    constructor
    · intro x hx
      rcases Data.mem_present.mp hx with hst | hst
      · cases hr : irs.refreshed with
        | true => exact hupd.pointsAt (.inr ⟨hst, hr⟩)
        | false =>
          have hbacked := hcond.resolve_left (by simp [hr])
          exact (PointsAt.iff_of_cells (hcells x hst hr)).mpr (hbacked.associatedImpus x hst)
      · exact hupd.pointsAt (.inl hst)
    · intro impi hx
      have hdec₁ : (w₁.stores s).mappings.value? impi ≠ some .corrupt := by
        rw [hwritten.only.mappings]
        exact hdec.mappings impi
      rcases Data.mem_present.mp hx with hst | hst
      · cases hr : irs.refreshed with
        | true => exact hupd.maps (.inr ⟨hst, hr⟩) hdec₁
        | false =>
          have hbacked := hcond.resolve_left (by simp [hr])
          exact (hmappings impi hst hr).mpr (hbacked.impis impi hst)
      · exact hupd.maps (.inl hst) hdec₁

end Store

end Homestead

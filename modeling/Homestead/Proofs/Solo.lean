import Homestead.Model.MemcachedCache
import Homestead.Proofs.Data

/-!
# `Homestead.Proofs.Solo`: one client alone on a reliable store

What each method of the cache does to a store when no other client is active. There is one
lemma for each loop of `update_irs_impi_mappings`, `update_irs_associated_impus` and
`perform_irs_impu_action`, and one for each of the three methods.

An effect on a table is given key by key: `MappingRemoved` and `MappingAdded` for what a
loop does to the mapping of its IMPI, `AssociatedRemoved` for the removal of an associated
IMPU. `ImpusOnly` and `MappingsOnly` say that the rest of the world is as before, the
clock aside.
-/

set_option autoImplicit false

namespace Homestead

open CacheProg

/-! ### Views of a store -/

namespace ImpuStore

/-- The `DefaultImpu` record under the key `impu`. -/
def defaultAt (st : ImpuStore) (impu : String) : Option DefaultImpuData :=
  match st.impus.value? impu with
  | some (.decoded (.default d)) => some d
  | _ => none

/-- The record under `impu` is an `AssociatedImpu` that points at `defaultImpu`. -/
def PointsAt (st : ImpuStore) (impu defaultImpu : String) : Prop :=
  ∃ expiry, st.impus.value? impu = some (.decoded (.associated defaultImpu expiry))

/-- The mapping of `impi` contains `defaultImpu`. -/
def Maps (st : ImpuStore) (impi defaultImpu : String) : Prop :=
  ∃ m, st.mappings.value? impi = some (.decoded m) ∧ defaultImpu ∈ m.defaultImpus

/-- Every record and every mapping of the store decodes. -/
structure Decodable (st : ImpuStore) : Prop where
  impus : ∀ key, st.impus.value? key ≠ some .corrupt
  mappings : ∀ key, st.mappings.value? key ≠ some .corrupt

theorem defaultAt_eq_some {st : ImpuStore} {impu : String} {d : DefaultImpuData} :
    st.defaultAt impu = some d ↔ st.impus.value? impu = some (.decoded (.default d)) := by
  unfold defaultAt
  split
  · rename_i d' h
    rw [h]
    simp
  · rename_i h
    constructor
    · exact nofun
    · intro hd
      exact absurd hd (h d)

theorem defaultAt_congr {st st' : ImpuStore} {k : String}
    (h : st'.impus.cells k = st.impus.cells k) : st'.defaultAt k = st.defaultAt k := by
  unfold defaultAt CasTable.value?
  rw [h]

theorem getImpu_of_none {st : ImpuStore} {s : StoreId} {impu : String}
    (h : st.impus.cells impu = none) : st.getImpu s impu = (.notFound, none) := by
  simp [getImpu, h]

theorem getImpu_of_corrupt {st : ImpuStore} {s : StoreId} {impu : String} {cas : Nat}
    (h : st.impus.cells impu = some (cas, .corrupt)) : st.getImpu s impu = (.error, none) := by
  simp [getImpu, h]

theorem getImpu_of_decoded {st : ImpuStore} {s : StoreId} {impu : String} {cas : Nat}
    {data : ImpuData} (h : st.impus.cells impu = some (cas, .decoded data)) :
    st.getImpu s impu = (.ok, some (data.fromData impu cas s)) := by
  simp [getImpu, h]

theorem getImpiMapping_of_none {st : ImpuStore} {impi : String}
    (h : st.mappings.cells impi = none) : st.getImpiMapping impi = (.notFound, none) := by
  simp [getImpiMapping, h]

theorem getImpiMapping_of_corrupt {st : ImpuStore} {impi : String} {cas : Nat}
    (h : st.mappings.cells impi = some (cas, .corrupt)) :
    st.getImpiMapping impi = (.error, none) := by
  simp [getImpiMapping, h]

theorem getImpiMapping_of_decoded {st : ImpuStore} {impi : String} {cas : Nat}
    {data : MappingData} (h : st.mappings.cells impi = some (cas, .decoded data)) :
    st.getImpiMapping impi = (.ok, some (data.fromData impi cas)) := by
  simp [getImpiMapping, h]

end ImpuStore

/-- Between `w` and `w'` only the `impu` table of the store `s` and the clock changed. -/
structure ImpusOnly (s : StoreId) (w w' : World) : Prop where
  stores : ∀ s', s' ≠ s → w'.stores s' = w.stores s'
  mappings : (w'.stores s).mappings = (w.stores s).mappings

/-- Between `w` and `w'` only the `impi_mapping` table of `s` and the clock changed. -/
structure MappingsOnly (s : StoreId) (w w' : World) : Prop where
  stores : ∀ s', s' ≠ s → w'.stores s' = w.stores s'
  impus : (w'.stores s).impus = (w.stores s).impus

namespace ImpusOnly

theorem refl (s : StoreId) (w : World) : ImpusOnly s w w := ⟨fun _ _ => rfl, rfl⟩

theorem trans {s : StoreId} {w₁ w₂ w₃ : World} (h₁ : ImpusOnly s w₁ w₂)
    (h₂ : ImpusOnly s w₂ w₃) : ImpusOnly s w₁ w₃ where
  stores s' hs' := (h₂.stores s' hs').trans (h₁.stores s' hs')
  mappings := h₂.mappings.trans h₁.mappings

theorem setImpus (s : StoreId) (w : World) (t : CasTable String (Blob ImpuData)) :
    ImpusOnly s w (w.setImpus s t) where
  stores _ hs' := w.setImpus_stores_ne t hs'
  mappings := by simp

theorem tick (s : StoreId) (w : World) : ImpusOnly s w w.tick := ⟨fun _ _ => rfl, rfl⟩

end ImpusOnly

namespace MappingsOnly

theorem refl (s : StoreId) (w : World) : MappingsOnly s w w := ⟨fun _ _ => rfl, rfl⟩

theorem trans {s : StoreId} {w₁ w₂ w₃ : World} (h₁ : MappingsOnly s w₁ w₂)
    (h₂ : MappingsOnly s w₂ w₃) : MappingsOnly s w₁ w₃ where
  stores s' hs' := (h₂.stores s' hs').trans (h₁.stores s' hs')
  impus := h₂.impus.trans h₁.impus

theorem setMappings (s : StoreId) (w : World) (t : CasTable String (Blob MappingData)) :
    MappingsOnly s w (w.setMappings s t) where
  stores _ hs' := w.setMappings_stores_ne t hs'
  impus := by simp

theorem tick (s : StoreId) (w : World) : MappingsOnly s w w.tick := ⟨fun _ _ => rfl, rfl⟩

end MappingsOnly

/-- From `w` to `w'` the clock was read some number of times. -/
def Later (w w' : World) : Prop := ∃ n, w'.clock = fun i => w.clock (i + n)

namespace Later

theorem refl (w : World) : Later w w := ⟨0, rfl⟩

theorem trans {w₁ w₂ w₃ : World} (h₁ : Later w₁ w₂) (h₂ : Later w₂ w₃) : Later w₁ w₃ := by
  obtain ⟨m, hm⟩ := h₁
  obtain ⟨n, hn⟩ := h₂
  refine ⟨n + m, ?_⟩
  rw [hn, hm]
  funext i
  simp only [Nat.add_assoc]

theorem tick (w : World) : Later w w.tick := ⟨1, rfl⟩

end Later

/-- A run reads the clock forward. -/
theorem later_of_eval {α : Type} {p : CacheProg α} {w w' : World} {a : α}
    (he : Eval serve p w a w') : Later w w' := by
  refine he.frame Later.refl (fun _ _ _ => .trans) fun o w => ?_
  cases o with
  | time => exact .tick w
  | setImpu s impu =>
    show Later w (w.casImpu s impu impu.cas).2
    unfold World.casImpu
    split <;> exact ⟨0, rfl⟩
  | addImpu s impu =>
    show Later w (w.casImpu s impu 0).2
    unfold World.casImpu
    split <;> exact ⟨0, rfl⟩
  | setImpiMapping s m =>
    show Later w (w.casMapping s m).2
    unfold World.casMapping
    split <;> exact ⟨0, rfl⟩
  | _ => exact ⟨0, rfl⟩

/-! ### Single calls -/

theorem eval_getImpu (s : StoreId) (impu : String) (w : World) :
    Eval serve (getImpu s impu) w ((w.stores s).getImpu s impu) w :=
  .call (.ret _ _)

theorem eval_getImpiMapping (s : StoreId) (impi : String) (w : World) :
    Eval serve (getImpiMapping s impi) w ((w.stores s).getImpiMapping impi) w :=
  .call (.ret _ _)

theorem eval_timeNow (w : World) : Eval serve timeNow w (w.clock 0) w.tick :=
  .call (.ret _ _)

theorem eval_progressCb (w : World) : Eval serve progressCb w () w :=
  .call (.ret _ _)

theorem eval_setImpuWithoutCas (s : StoreId) (impu : Impu) (w : World) :
    Eval serve (setImpuWithoutCas s impu) w .ok
      (w.setImpus s ((w.stores s).impus.put impu.impu (.decoded impu.toData))) :=
  .call (.ret _ _)

theorem eval_deleteImpu (s : StoreId) (impu : Impu) (w : World) :
    Eval serve (deleteImpu s impu) w .ok
      (w.setImpus s ((w.stores s).impus.erase impu.impu)) :=
  .call (.ret _ _)

theorem eval_deleteImpiMapping (s : StoreId) (m : ImpiMapping) (w : World) :
    Eval serve (deleteImpiMapping s m) w .ok
      (w.setMappings s ((w.stores s).mappings.erase m.impi)) :=
  .call (.ret _ _)

theorem casImpu_of_version {s : StoreId} {impu : Impu} {cas : Nat} {w : World}
    (h : (w.stores s).impus.version impu.impu = cas) :
    w.casImpu s impu cas
      = (.ok, w.setImpus s ((w.stores s).impus.put impu.impu (.decoded impu.toData))) := by
  simp [World.casImpu, CasTable.cas_of_version h]

theorem casImpu_of_ne {s : StoreId} {impu : Impu} {cas : Nat} {w : World}
    (h : (w.stores s).impus.version impu.impu ≠ cas) :
    w.casImpu s impu cas = (.dataContention, w) := by
  simp [World.casImpu, CasTable.cas_eq_none.mpr h]

theorem casMapping_of_version {s : StoreId} {m : ImpiMapping} {w : World}
    (h : (w.stores s).mappings.version m.impi = m.cas) :
    w.casMapping s m
      = (.ok, w.setMappings s ((w.stores s).mappings.put m.impi (.decoded m.toData))) := by
  simp [World.casMapping, CasTable.cas_of_version h]

theorem casMapping_of_ne {s : StoreId} {m : ImpiMapping} {w : World}
    (h : (w.stores s).mappings.version m.impi ≠ m.cas) :
    w.casMapping s m = (.dataContention, w) := by
  simp [World.casMapping, CasTable.cas_eq_none.mpr h]

theorem eval_setImpu (s : StoreId) (impu : Impu) (w : World) :
    Eval serve (setImpu s impu) w (w.casImpu s impu impu.cas).1
      (w.casImpu s impu impu.cas).2 :=
  .call (.ret _ _)

theorem eval_addImpu (s : StoreId) (impu : Impu) (w : World) :
    Eval serve (addImpu s impu) w (w.casImpu s impu 0).1 (w.casImpu s impu 0).2 :=
  .call (.ret _ _)

theorem eval_setImpiMapping (s : StoreId) (m : ImpiMapping) (w : World) :
    Eval serve (setImpiMapping s m) w (w.casMapping s m).1 (w.casMapping s m).2 :=
  .call (.ret _ _)

/-- A write of a mapping with its current CAS value. -/
theorem eval_setImpiMapping_ok {s : StoreId} {m : ImpiMapping} {w : World}
    (h : (w.stores s).mappings.version m.impi = m.cas) :
    Eval serve (setImpiMapping s m) w .ok
      (w.setMappings s ((w.stores s).mappings.put m.impi (.decoded m.toData))) := by
  have he := eval_setImpiMapping s m w
  rwa [casMapping_of_version h] at he

/-- A write of a record with its current CAS value. -/
theorem eval_setImpu_ok {s : StoreId} {impu : Impu} {w : World}
    (h : (w.stores s).impus.version impu.impu = impu.cas) :
    Eval serve (setImpu s impu) w .ok
      (w.setImpus s ((w.stores s).impus.put impu.impu (.decoded impu.toData))) := by
  have he := eval_setImpu s impu w
  rwa [casImpu_of_version h] at he

/-! ### The loops over IMPI mappings -/

/-- The effect of removing the default IMPU `D` on one mapping. A mapping that keeps other
default IMPUs keeps their order and its expiry. -/
def MappingRemoved (D : String) (v v' : Option (Nat × Blob MappingData)) : Prop :=
  match v with
  | some (_, .decoded m) =>
    if D ∈ m.defaultImpus then
      if m.defaultImpus.filter (· ≠ D) = [] then v' = none
      else ∃ cas, v' = some (cas, .decoded
        { defaultImpus := m.defaultImpus.filter (· ≠ D), expiry := m.expiry })
    else v' = v
  | _ => v' = v

/-- The effect of adding `D` on one mapping that decodes: `D` is in it afterwards, and no
other default IMPU has come or gone. -/
def MappingAdded (D : String) (v v' : Option (Nat × Blob MappingData)) : Prop :=
  match v with
  | none => ∃ cas expiry, v' = some (cas, .decoded { defaultImpus := [D], expiry := expiry })
  | some (_, .decoded m) => ∃ cas expiry, v' = some (cas, .decoded
      { defaultImpus := if D ∈ m.defaultImpus then m.defaultImpus else m.defaultImpus ++ [D],
        expiry := expiry })
  | some (_, .corrupt) => v' = v

/-- A mapping that decodes, with the expiry `e`. -/
def MappingEnds (e : Int) (v : Option (Nat × Blob MappingData)) : Prop :=
  ∃ cas D, v = some (cas, .decoded { defaultImpus := D, expiry := e })

/-- What the addition of the mapping of `impi` from `w` to `w'` does to its expiry. A mapping that
is new, or is written again, counts from a reading of the clock. One that does not decode stays as
it was, and so does one that has the default IMPU of an IRS that is not refreshed. -/
inductive ExpiryAdded (irs : Irs) (s : StoreId) (impi : String) (w w' : World) : Prop
  | new (hends : MappingEnds (w.clock 0 + irs.ttl) ((w'.stores s).mappings.cells impi))
      (hnone : (w.stores s).mappings.cells impi = none)
  | again (hends : MappingEnds (toInt32 (irs.ttl + toInt32 (w.clock 1)))
        ((w'.stores s).mappings.cells impi))
      (hlater : Later w.tick w') (hdec : (w.stores s).mappings.value? impi ≠ some .corrupt)
      (hbad : ¬ (irs.refreshed = false ∧ (w.stores s).Maps impi irs.defaultImpu))
  | kept (hsame : (w'.stores s).mappings.cells impi = (w.stores s).mappings.cells impi)
      (hgood : ∀ m, (w.stores s).mappings.value? impi = some (.decoded m) →
        irs.defaultImpu ∈ m.defaultImpus ∧ irs.refreshed = false)

/-- The mapping `m` with `D` in it and the expiry replaced. -/
def ImpiMapping.withDefaultImpu (m : ImpiMapping) (D : String) (expiry : Int) : ImpiMapping :=
  { m with
    expiry := expiry
    defaultImpus := if D ∈ m.defaultImpus then m.defaultImpus else m.defaultImpus ++ [D] }

theorem refreshedMapping_found (irs : Irs) (impi : String) (now : Int) (m : ImpiMapping) :
    refreshedMapping irs impi now (.ok, some m)
      = m.withDefaultImpu irs.defaultImpu (toInt32 (irs.ttl + toInt32 now)) := by
  by_cases hD : irs.defaultImpu ∈ m.defaultImpus <;>
    simp [refreshedMapping, ImpiMapping.withDefaultImpu, ImpiMapping.hasDefaultImpu,
      ImpiMapping.setExpiry, ImpiMapping.addDefaultImpu, hD]

theorem resolveMapping_eq (irs : Irs) (now : Int) (m : ImpiMapping) :
    resolveMapping irs now m =
      { status :=
          if irs.defaultImpu ∈ m.defaultImpus ∧ irs.refreshed = false then .ok
          else .dataContention
        mapping := m.withDefaultImpu irs.defaultImpu (toInt32 (irs.ttl + toInt32 now)) } := by
  by_cases hD : irs.defaultImpu ∈ m.defaultImpus <;> cases hr : irs.refreshed <;>
    simp [resolveMapping, ImpiMapping.withDefaultImpu, ImpiMapping.hasDefaultImpu,
      ImpiMapping.setExpiry, ImpiMapping.addDefaultImpu, hD, hr]

/-- Writing the mapping found with `D` in it adds `D`. -/
theorem mappingAdded_withDefaultImpu (D impi : String) (cas cas' : Nat) (m : MappingData)
    (expiry : Int) :
    MappingAdded D (some (cas, .decoded m)) (some (cas', .decoded
      ((m.fromData impi cas).withDefaultImpu D expiry).toData)) :=
  ⟨cas', expiry, rfl⟩

/-- The removal of `D` from one mapping. It needs one pass, and the status it leaves is
`OK` when it was. -/
theorem eval_removeMapping (irs : Irs) (s : StoreId) (impi : String) (w : World) :
    ∃ w', Eval serve (removeMapping irs s impi .ok) w .ok w' ∧ MappingsOnly s w w' ∧
      MappingRemoved irs.defaultImpu ((w.stores s).mappings.cells impi)
        ((w'.stores s).mappings.cells impi) ∧
      ∀ k, k ≠ impi → (w'.stores s).mappings.cells k = (w.stores s).mappings.cells k := by
  -- One pass, by the answer of the read.
  suffices hpass : ∃ w', Eval serve (removeMappingPass irs s impi .ok) w .ok w' ∧
      MappingsOnly s w w' ∧
      MappingRemoved irs.defaultImpu ((w.stores s).mappings.cells impi)
        ((w'.stores s).mappings.cells impi) ∧
      ∀ k, k ≠ impi → (w'.stores s).mappings.cells k = (w.stores s).mappings.cells k by
    obtain ⟨w', he, hrest⟩ := hpass
    exact ⟨w', he.loop_once rfl, hrest⟩
  have hget := eval_getImpiMapping s impi w
  cases hcell : (w.stores s).mappings.cells impi with
  | none =>
    rw [ImpuStore.getImpiMapping_of_none hcell] at hget
    exact ⟨w, hget.bind (.ret _ _), .refl _ _, hcell, fun _ _ => rfl⟩
  | some p =>
    obtain ⟨cas, blob⟩ := p
    cases blob with
    | corrupt =>
      rw [ImpuStore.getImpiMapping_of_corrupt hcell] at hget
      exact ⟨w, hget.bind (.ret _ _), .refl _ _, hcell, fun _ _ => rfl⟩
    | decoded m =>
      rw [ImpuStore.getImpiMapping_of_decoded hcell] at hget
      by_cases hD : irs.defaultImpu ∈ m.defaultImpus
      · by_cases hempty : m.defaultImpus.filter (· ≠ irs.defaultImpu) = []
        · -- The last default IMPU of the mapping: the mapping goes.
          refine ⟨_, hget.bind ?_, .setMappings s w ((w.stores s).mappings.erase impi), ?_, ?_⟩
          · have hhas : (m.fromData impi cas).hasDefaultImpu irs.defaultImpu = true :=
              decide_eq_true hD
            have hgone : ((m.fromData impi cas).removeDefaultImpu
                irs.defaultImpu).isEmpty = true :=
              List.isEmpty_iff.mpr hempty
            simp only [hhas, hgone, if_true]
            exact eval_deleteImpiMapping _ _ _
          · simp only [MappingRemoved, hD, hempty, if_true, World.setMappings_stores_self,
              CasTable.erase_cells_self]
          · intro k hk
            simp [CasTable.erase_cells_ne _ hk]
        · refine ⟨_, hget.bind ?_, .setMappings s w ((w.stores s).mappings.put impi
            (.decoded ((m.fromData impi cas).removeDefaultImpu irs.defaultImpu).toData)), ?_, ?_⟩
          · have hhas : (m.fromData impi cas).hasDefaultImpu irs.defaultImpu = true :=
              decide_eq_true hD
            have hkept : ((m.fromData impi cas).removeDefaultImpu
                irs.defaultImpu).isEmpty = false :=
              List.isEmpty_eq_false_iff.mpr hempty
            simp only [hhas, hkept, if_true, Bool.false_eq_true, if_false]
            exact eval_setImpiMapping_ok (CasTable.version_of_cells hcell)
          · simp only [MappingRemoved, hD, hempty, if_true, if_false,
              World.setMappings_stores_self, CasTable.put_cells_self]
            exact ⟨_, rfl⟩
          · intro k hk
            simp [CasTable.put_cells_ne _ _ hk]
      · refine ⟨w, hget.bind ?_, .refl _ _, ?_, fun _ _ => rfl⟩
        · have hhas : (m.fromData impi cas).hasDefaultImpu irs.defaultImpu = false :=
            decide_eq_false hD
          simp only [hhas, Bool.false_eq_true, if_false]
          exact .ret _ _
        · simp [MappingRemoved, hD, hcell]

/-- The refresh of one mapping that decodes. -/
theorem eval_refreshMapping (irs : Irs) (s : StoreId) (impi : String) (status : Status)
    {w : World} (hdec : (w.stores s).mappings.value? impi ≠ some .corrupt) :
    ∃ w', Eval serve (refreshMapping irs s impi status) w .ok w' ∧
      MappingEnds (toInt32 (irs.ttl + toInt32 (w.clock 0))) ((w'.stores s).mappings.cells impi) ∧
      MappingsOnly s w w' ∧
      MappingAdded irs.defaultImpu ((w.stores s).mappings.cells impi)
        ((w'.stores s).mappings.cells impi) ∧
      ∀ k, k ≠ impi → (w'.stores s).mappings.cells k = (w.stores s).mappings.cells k := by
  -- The mapping that is written has the CAS value of the one that is found.
  let found := (w.stores s).getImpiMapping impi
  let m := refreshedMapping irs impi (w.clock 0) found
  have hm : m.impi = impi ∧ (w.stores s).mappings.version impi = m.cas ∧
      m.expiry = toInt32 (irs.ttl + toInt32 (w.clock 0)) ∧
      ∀ cas, MappingAdded irs.defaultImpu ((w.stores s).mappings.cells impi)
        (some (cas, .decoded m.toData)) := by
    cases hcell : (w.stores s).mappings.cells impi with
    | none =>
      have hfound : found = (.notFound, none) := ImpuStore.getImpiMapping_of_none hcell
      have hmeq : m = .new impi irs.defaultImpu (toInt32 (irs.ttl + toInt32 (w.clock 0))) := by
        simp only [m, hfound, refreshedMapping]
      rw [hmeq]
      exact ⟨rfl, CasTable.version_eq_zero.mpr hcell, rfl, fun cas => ⟨cas, _, rfl⟩⟩
    | some p =>
      obtain ⟨cas, blob⟩ := p
      cases blob with
      | corrupt => exact absurd (CasTable.value?_of_cells hcell) hdec
      | decoded d =>
        have hfound : found = (.ok, some (d.fromData impi cas)) :=
          ImpuStore.getImpiMapping_of_decoded hcell
        have hversion := CasTable.version_of_cells hcell
        have hmeq : m = (d.fromData impi cas).withDefaultImpu irs.defaultImpu
            (toInt32 (irs.ttl + toInt32 (w.clock 0))) := by
          simp only [m, hfound, refreshedMapping_found]
        rw [hmeq]
        exact ⟨rfl, hversion, rfl, fun cas' => mappingAdded_withDefaultImpu _ _ _ _ _ _⟩
  obtain ⟨himpi, hcas, hexpiry, hadded⟩ := hm
  have hset : Eval serve (setImpiMapping s m) w.tick .ok
      (w.tick.setMappings s ((w.stores s).mappings.put impi (.decoded m.toData))) := by
    have he := eval_setImpiMapping_ok (s := s) (m := m) (w := w.tick)
    rw [himpi] at he
    exact he hcas
  have hpass : Eval serve (refreshMappingPass irs s impi status) w .ok _ :=
    (eval_getImpiMapping s impi w).bind ((eval_timeNow w).bind hset)
  refine ⟨_, hpass.loop_once rfl, ?_, (MappingsOnly.tick s w).trans (.setMappings s _ _), ?_, ?_⟩
  · simp only [World.setMappings_stores_self, CasTable.put_cells_self]
    exact ⟨_, m.defaultImpus, by rw [← hexpiry]; rfl⟩
  · simp only [World.setMappings_stores_self, CasTable.put_cells_self]
    exact hadded _
  · intro k hk
    simp [CasTable.put_cells_ne _ _ hk]

/-- The refresh of a mapping that does not decode never ends: the read fails, the write
has the CAS value 0, and the key holds data. -/
theorem not_eval_refreshMapping (irs : Irs) (s : StoreId) (impi : String) (status : Status)
    {w : World} (hcor : (w.stores s).mappings.value? impi = some .corrupt) (b : Status)
    (w' : World) : ¬ Eval serve (refreshMapping irs s impi status) w b w' := by
  refine Eval.not_loop (fun _ v => (v.stores s).mappings.value? impi = some .corrupt) ?_ hcor
    b w'
  intro st v b' v' hv he
  obtain ⟨cas, hcell⟩ := CasTable.value?_eq_some.mp hv
  let m := ImpiMapping.new impi irs.defaultImpu (toInt32 (irs.ttl + toInt32 (v.clock 0)))
  have hne : (v.tick.stores s).mappings.version m.impi ≠ m.cas := by
    have hversion : (v.tick.stores s).mappings.version m.impi = cas :=
      CasTable.version_of_cells hcell
    have hpos := ((v.stores s).mappings.fresh impi cas _ hcell).1
    rw [hversion]
    exact Nat.pos_iff_ne_zero.mp hpos
  have hset := eval_setImpiMapping s m v.tick
  rw [casMapping_of_ne hne] at hset
  have hget := eval_getImpiMapping s impi v
  rw [ImpuStore.getImpiMapping_of_corrupt hcell] at hget
  have hpass : Eval serve (refreshMappingPass irs s impi st) v .dataContention v.tick :=
    hget.bind ((eval_timeNow v).bind hset)
  obtain ⟨rfl, rfl⟩ := he.det hpass
  exact ⟨rfl, hv⟩

/-- A pass of the add loop whose write has the current CAS value. -/
theorem eval_addMappingPass_ok {irs : Irs} {s : StoreId} {impi : String} {st : AddMappingState}
    {w : World} (h : (w.stores s).mappings.version st.mapping.impi = st.mapping.cas) :
    Eval serve (addMappingPass irs s impi st) w { st with status := .ok }
      (w.setMappings s ((w.stores s).mappings.put st.mapping.impi
        (.decoded st.mapping.toData))) :=
  (eval_setImpiMapping_ok h).bind (.ret _ _)

/-- A pass whose write conflicts with a mapping that does not decode. -/
theorem eval_addMappingPass_corrupt {irs : Irs} {s : StoreId} {st : AddMappingState} {w : World}
    {cas : Nat} (hcell : (w.stores s).mappings.cells st.mapping.impi = some (cas, .corrupt))
    (hne : (w.stores s).mappings.version st.mapping.impi ≠ st.mapping.cas) :
    Eval serve (addMappingPass irs s st.mapping.impi st) w { st with status := .error } w := by
  have hset := eval_setImpiMapping s st.mapping w
  rw [casMapping_of_ne hne] at hset
  have hget := eval_getImpiMapping s st.mapping.impi w
  rw [ImpuStore.getImpiMapping_of_corrupt hcell] at hget
  exact hset.bind (hget.bind (.ret _ _))

/-- A pass whose write conflicts, and that resolves the conflict with the mapping it finds. -/
theorem eval_addMappingPass_found {irs : Irs} {s : StoreId} {st : AddMappingState} {w : World}
    {cas : Nat} {m : MappingData}
    (hcell : (w.stores s).mappings.cells st.mapping.impi = some (cas, .decoded m))
    (hne : (w.stores s).mappings.version st.mapping.impi ≠ st.mapping.cas) :
    Eval serve (addMappingPass irs s st.mapping.impi st) w
      (resolveMapping irs (w.clock 0) (m.fromData st.mapping.impi cas)) w.tick := by
  have hset := eval_setImpiMapping s st.mapping w
  rw [casMapping_of_ne hne] at hset
  have hget := eval_getImpiMapping s st.mapping.impi w
  rw [ImpuStore.getImpiMapping_of_decoded hcell] at hget
  exact hset.bind (hget.bind ((eval_timeNow w).bind (.ret _ _)))

/-- The addition of one mapping. The first write assumes that there is none. A mapping that
does not decode makes it give up. -/
theorem eval_addMapping (irs : Irs) (s : StoreId) (impi : String) (status : Status) (w : World) :
    ∃ status' w', Eval serve (addMapping irs s impi status) w status' w' ∧
      ExpiryAdded irs s impi w w' ∧
      ((w.stores s).mappings.value? impi ≠ some .corrupt → status' = .ok) ∧
      MappingsOnly s w w' ∧
      MappingAdded irs.defaultImpu ((w.stores s).mappings.cells impi)
        ((w'.stores s).mappings.cells impi) ∧
      ∀ k, k ≠ impi → (w'.stores s).mappings.cells k = (w.stores s).mappings.cells k := by
  let first := ImpiMapping.new impi irs.defaultImpu (w.clock 0 + irs.ttl)
  -- It is enough to run the loop from the first mapping, after the clock reading.
  suffices hloop : ∃ st w', Eval serve (Prog.loop (addMappingPass irs s impi)
        (fun s => s.status.isContention) { status := status, mapping := first }) w.tick st w' ∧
      ExpiryAdded irs s impi w w' ∧
      ((w.stores s).mappings.value? impi ≠ some .corrupt → st.status = .ok) ∧
      MappingsOnly s w.tick w' ∧
      MappingAdded irs.defaultImpu ((w.stores s).mappings.cells impi)
        ((w'.stores s).mappings.cells impi) ∧
      ∀ k, k ≠ impi → (w'.stores s).mappings.cells k = (w.stores s).mappings.cells k by
    obtain ⟨st, w', he, hexpiry, hok, honly, hrest⟩ := hloop
    exact ⟨st.status, w', (eval_timeNow w).bind (he.bind (.ret _ _)), hexpiry, hok,
      (MappingsOnly.tick s w).trans honly, hrest⟩
  cases hcell : (w.stores s).mappings.cells impi with
  | none =>
    have hversion : (w.tick.stores s).mappings.version first.impi = first.cas :=
      CasTable.version_eq_zero.mpr hcell
    refine ⟨_, _, (eval_addMappingPass_ok hversion).loop_once rfl, ?_, fun _ => rfl,
      .setMappings s _ _, ?_, ?_⟩
    · refine .new ?_ hcell
      rw [World.setMappings_stores_self]
      exact ⟨_, [irs.defaultImpu], CasTable.put_cells_self _ _ _⟩
    · simp only [World.setMappings_stores_self]
      exact ⟨_, _, CasTable.put_cells_self _ _ _⟩
    · intro k hk
      simp only [World.setMappings_stores_self]
      exact CasTable.put_cells_ne _ _ hk
  | some p =>
    obtain ⟨cas, blob⟩ := p
    have hversion : (w.tick.stores s).mappings.version impi = cas :=
      CasTable.version_of_cells hcell
    have hne : (w.tick.stores s).mappings.version first.impi ≠ first.cas := by
      have hpos := ((w.stores s).mappings.fresh impi cas _ hcell).1
      rw [show first.impi = impi from rfl, hversion]
      exact Nat.pos_iff_ne_zero.mp hpos
    cases blob with
    | corrupt =>
      have hpass : Eval serve (addMappingPass irs s impi { status := status, mapping := first })
          w.tick { status := .error, mapping := first } w.tick :=
        eval_addMappingPass_corrupt hcell hne
      have hcor := CasTable.value?_of_cells hcell
      refine ⟨_, _, hpass.loop_once rfl, .kept rfl fun m hm => ?_,
        fun hdec => absurd hcor hdec, .refl _ _, hcell, fun _ _ => rfl⟩
      rw [hcor] at hm
      cases hm
    | decoded m =>
      have hpass : Eval serve (addMappingPass irs s impi { status := status, mapping := first })
          w.tick (resolveMapping irs (w.tick.clock 0) (m.fromData impi cas)) w.tick.tick :=
        eval_addMappingPass_found hcell hne
      rw [resolveMapping_eq] at hpass
      by_cases hgood : irs.defaultImpu ∈ m.defaultImpus ∧ irs.refreshed = false
      · -- The mapping has `D` already, and nothing is written.
        rw [if_pos (show irs.defaultImpu ∈ (m.fromData impi cas).defaultImpus ∧ _ from hgood)]
          at hpass
        refine ⟨_, _, hpass.loop_once rfl, .kept rfl fun m' hm' => ?_, fun _ => rfl, .tick s _,
          ?_, fun _ _ => rfl⟩
        · rw [CasTable.value?_of_cells hcell] at hm'
          cases hm'
          exact hgood
        · refine ⟨cas, m.expiry, ?_⟩
          rw [if_pos hgood.1]
          exact hcell
      · rw [if_neg (show ¬ (irs.defaultImpu ∈ (m.fromData impi cas).defaultImpus ∧ _)
          from hgood)] at hpass
        have hpass₂ : Eval serve (addMappingPass irs s impi
            { status := .dataContention
              mapping := (m.fromData impi cas).withDefaultImpu irs.defaultImpu
                (toInt32 (irs.ttl + toInt32 (w.tick.clock 0))) }) w.tick.tick _ _ :=
          eval_addMappingPass_ok hversion
        refine ⟨_, _, hpass.loop_again rfl (hpass₂.loop_once rfl), ?_, fun _ => rfl,
          (MappingsOnly.tick s _).trans (.setMappings s _ _), ?_, ?_⟩
        · refine .again ?_ ⟨1, rfl⟩ (by simp [CasTable.value?_of_cells hcell]) ?_
          · rw [World.setMappings_stores_self]
            exact ⟨_, _, CasTable.put_cells_self _ _ _⟩
          · rintro ⟨hrefreshed, m', hm', hmem⟩
            rw [CasTable.value?_of_cells hcell] at hm'
            cases hm'
            exact hgood ⟨hmem, hrefreshed⟩
        · simp only [World.setMappings_stores_self]
          rw [show (ImpiMapping.withDefaultImpu _ _ _).impi = impi from rfl,
            CasTable.put_cells_self]
          exact mappingAdded_withDefaultImpu _ _ _ _ _ _
        · intro k hk
          simp only [World.setMappings_stores_self]
          exact CasTable.put_cells_ne _ _ hk

/-- The effect of `update_irs_impi_mappings` on the mapping of one IMPI. -/
def MappingEffect (irs : Irs) (impi : String) (v v' : Option (Nat × Blob MappingData)) : Prop :=
  match irs.impis[impi]? with
  | some .deleted => MappingRemoved irs.defaultImpu v v'
  | some .added => MappingAdded irs.defaultImpu v v'
  | some .unchanged => if irs.refreshed then MappingAdded irs.defaultImpu v v' else v' = v
  | none => v' = v

/-- No refresh meets a mapping that does not decode. -/
def RefreshDecodable (irs : Irs) (s : StoreId) (w : World) : Prop :=
  irs.refreshed = true → ∀ impi, irs.impis[impi]? = some .unchanged →
    (w.stores s).mappings.value? impi ≠ some .corrupt

/-- What a key holds, read off the cells of a table. -/
theorem mappings_value?_congr {s : StoreId} {w w' : World} {impi : String}
    (h : (w'.stores s).mappings.cells impi = (w.stores s).mappings.cells impi) :
    (w'.stores s).mappings.value? impi = (w.stores s).mappings.value? impi := by
  simp [CasTable.value?, h]

/-- The loop over the deleted IMPIs. -/
theorem eval_removeMappings (irs : Irs) (s : StoreId) (w : World) :
    ∃ w', Eval serve (Prog.forEach (irs.impisIn .deleted) (removeMapping irs s) .ok) w .ok w' ∧
      MappingsOnly s w w' ∧
      (∀ impi ∈ irs.impisIn .deleted, MappingRemoved irs.defaultImpu
        ((w.stores s).mappings.cells impi) ((w'.stores s).mappings.cells impi)) ∧
      ∀ impi, impi ∉ irs.impisIn .deleted →
        (w'.stores s).mappings.cells impi = (w.stores s).mappings.cells impi := by
  obtain ⟨st, w', he, rfl, hrest⟩ := Eval.forEach_keys
    (fun w impi => (w.stores s).mappings.cells impi) (fun st => st = Status.ok)
    (fun _ => MappingRemoved irs.defaultImpu) (MappingsOnly s) (.refl s)
    (fun _ _ _ => .trans) (Data.nodup_elementsInState irs.impis .deleted) (w := w) rfl
    (fun impi _ st v hst _ _ => by
      subst hst
      obtain ⟨v', he, hrest⟩ := eval_removeMapping irs s impi v
      exact ⟨_, v', he, rfl, hrest⟩)
  exact ⟨w', he, hrest⟩

/-- The loop over the unchanged IMPIs of a refreshed IRS. -/
theorem eval_refreshMappings (irs : Irs) (s : StoreId) {w : World}
    (hdec : ∀ impi ∈ irs.impisIn .unchanged,
      (w.stores s).mappings.value? impi ≠ some .corrupt) :
    ∃ w', Eval serve (Prog.forEach (irs.impisIn .unchanged) (refreshMapping irs s) .ok)
        w .ok w' ∧
      MappingsOnly s w w' ∧
      (∀ impi ∈ irs.impisIn .unchanged, MappingAdded irs.defaultImpu
        ((w.stores s).mappings.cells impi) ((w'.stores s).mappings.cells impi)) ∧
      ∀ impi, impi ∉ irs.impisIn .unchanged →
        (w'.stores s).mappings.cells impi = (w.stores s).mappings.cells impi := by
  obtain ⟨st, w', he, rfl, hrest⟩ := Eval.forEach_keys
    (fun w impi => (w.stores s).mappings.cells impi) (fun st => st = Status.ok)
    (fun _ => MappingAdded irs.defaultImpu) (MappingsOnly s) (.refl s)
    (fun _ _ _ => .trans) (Data.nodup_elementsInState irs.impis .unchanged) (w := w) rfl
    (fun impi himpi st v _ _ hsame => by
      have hdec' : (v.stores s).mappings.value? impi ≠ some .corrupt := by
        rw [mappings_value?_congr hsame]
        exact hdec impi himpi
      obtain ⟨v', he, -, hrest⟩ := eval_refreshMapping irs s impi st hdec'
      exact ⟨_, v', he, rfl, hrest⟩)
  exact ⟨w', he, hrest⟩

/-- The loop over the added IMPIs. Its status is not `OK` only when a mapping did not
decode. -/
theorem eval_addMappings (irs : Irs) (s : StoreId) (w : World) :
    ∃ status w', Eval serve (Prog.forEach (irs.impisIn .added) (addMapping irs s) .ok)
        w status w' ∧
      ((∀ impi ∈ irs.impisIn .added, (w.stores s).mappings.value? impi ≠ some .corrupt) →
        status = .ok) ∧
      MappingsOnly s w w' ∧
      (∀ impi ∈ irs.impisIn .added, MappingAdded irs.defaultImpu
        ((w.stores s).mappings.cells impi) ((w'.stores s).mappings.cells impi)) ∧
      ∀ impi, impi ∉ irs.impisIn .added →
        (w'.stores s).mappings.cells impi = (w.stores s).mappings.cells impi :=
  Eval.forEach_keys
    (fun w impi => (w.stores s).mappings.cells impi)
    (fun st => (∀ impi ∈ irs.impisIn .added,
      (w.stores s).mappings.value? impi ≠ some .corrupt) → st = Status.ok)
    (fun _ => MappingAdded irs.defaultImpu) (MappingsOnly s) (.refl s)
    (fun _ _ _ => .trans) (Data.nodup_elementsInState irs.impis .added) (w := w)
    (fun _ => rfl)
    (fun impi himpi st v _ _ hsame => by
      obtain ⟨st', v', he, -, hok, hrest⟩ := eval_addMapping irs s impi st v
      refine ⟨st', v', he, fun hdec => hok ?_, hrest⟩
      rw [mappings_value?_congr hsame]
      exact hdec impi himpi)

theorem Irs.notMem_impisIn {irs : Irs} {impi : String} {st : State}
    (h : irs.impis[impi]? ≠ some st) : impi ∉ irs.impisIn st :=
  mt Data.mem_elementsInState.mp h

theorem Irs.notMem_impusIn {irs : Irs} {impu : String} {st : State}
    (h : irs.associatedImpus[impu]? ≠ some st) : impu ∉ irs.impusIn st :=
  mt Data.mem_elementsInState.mp h

/-- The three loops in sequence. -/
theorem updateIrsImpiMappings_eq (irs : Irs) (s : StoreId) :
    updateIrsImpiMappings irs s
      = Prog.forEach (irs.impisIn .deleted) (removeMapping irs s) .ok >>= fun status =>
        (if irs.refreshed then
          Prog.forEach (irs.impisIn .unchanged) (refreshMapping irs s) status
        else pure status) >>= Prog.forEach (irs.impisIn .added) (addMapping irs s) := by
  unfold updateIrsImpiMappings
  cases irs.refreshed <;> rfl

/-- The middle loop, which only a refreshed IRS runs. -/
theorem eval_refreshMappings_if (irs : Irs) (s : StoreId) {w : World}
    (hdec : irs.refreshed = true → ∀ impi ∈ irs.impisIn .unchanged,
      (w.stores s).mappings.value? impi ≠ some .corrupt) :
    ∃ w', Eval serve (if irs.refreshed then
        Prog.forEach (irs.impisIn .unchanged) (refreshMapping irs s) .ok else pure .ok)
        w .ok w' ∧ MappingsOnly s w w' ∧
      (irs.refreshed = true → ∀ impi ∈ irs.impisIn .unchanged, MappingAdded irs.defaultImpu
        ((w.stores s).mappings.cells impi) ((w'.stores s).mappings.cells impi)) ∧
      ∀ impi, (impi ∉ irs.impisIn .unchanged ∨ irs.refreshed = false) →
        (w'.stores s).mappings.cells impi = (w.stores s).mappings.cells impi := by
  cases hr : irs.refreshed with
  | false => exact ⟨w, .ret _ _, .refl _ _, nofun, fun _ _ => rfl⟩
  | true =>
    obtain ⟨w', he, honly, hadded, hkept⟩ := eval_refreshMappings irs s (hdec hr)
    refine ⟨w', he, honly, fun _ => hadded, fun impi himpi => hkept impi ?_⟩
    simpa using himpi

/-- `update_irs_impi_mappings` alone on the store: it ends, and every mapping changes as
the state of its IMPI says. -/
theorem eval_updateIrsImpiMappings (irs : Irs) (s : StoreId) {w : World}
    (hdec : RefreshDecodable irs s w) :
    ∃ status w', Eval serve (updateIrsImpiMappings irs s) w status w' ∧
      ((∀ impi ∈ irs.impisIn .added, (w.stores s).mappings.value? impi ≠ some .corrupt) →
        status = .ok) ∧
      MappingsOnly s w w' ∧
      ∀ impi, MappingEffect irs impi ((w.stores s).mappings.cells impi)
        ((w'.stores s).mappings.cells impi) := by
  rw [updateIrsImpiMappings_eq]
  -- The three loops in turn: removals, refreshes, and additions.
  obtain ⟨w₁, he₁, honly₁, hremoved, hkept₁⟩ := eval_removeMappings irs s w
  have hdec₁ : irs.refreshed = true → ∀ impi ∈ irs.impisIn .unchanged,
      (w₁.stores s).mappings.value? impi ≠ some .corrupt := by
    intro hr impi himpi
    have hst := Data.mem_elementsInState.mp himpi
    rw [mappings_value?_congr (hkept₁ impi (Irs.notMem_impisIn (by simp [hst])))]
    exact hdec hr impi hst
  obtain ⟨w₂, he₂, honly₂, hrefreshed, hkept₂⟩ := eval_refreshMappings_if irs s hdec₁
  obtain ⟨status, w₃, he₃, hok, honly₃, hadded, hkept₃⟩ := eval_addMappings irs s w₂
  refine ⟨status, w₃, he₁.bind (he₂.bind he₃), fun hd => hok ?_,
    (honly₁.trans honly₂).trans honly₃, ?_⟩
  · intro impi himpi
    have hst := Data.mem_elementsInState.mp himpi
    rw [mappings_value?_congr (hkept₂ impi (.inl (Irs.notMem_impisIn (by simp [hst])))),
      mappings_value?_congr (hkept₁ impi (Irs.notMem_impisIn (by simp [hst])))]
    exact hd impi himpi
  · -- A key is in at most one of the three lists, so the other two loops leave it alone.
    intro impi
    unfold MappingEffect
    cases hst : irs.impis[impi]? with
    | none =>
      show (w₃.stores s).mappings.cells impi = (w.stores s).mappings.cells impi
      rw [hkept₃ impi (Irs.notMem_impisIn (by simp [hst])),
        hkept₂ impi (.inl (Irs.notMem_impisIn (by simp [hst]))),
        hkept₁ impi (Irs.notMem_impisIn (by simp [hst]))]
    | some st =>
      cases st with
      | deleted =>
        show MappingRemoved _ _ _
        rw [hkept₃ impi (Irs.notMem_impisIn (by simp [hst])),
          hkept₂ impi (.inl (Irs.notMem_impisIn (by simp [hst])))]
        exact hremoved impi (Data.mem_elementsInState.mpr hst)
      | added =>
        have heffect := hadded impi (Data.mem_elementsInState.mpr hst)
        rw [hkept₂ impi (.inl (Irs.notMem_impisIn (by simp [hst]))),
          hkept₁ impi (Irs.notMem_impisIn (by simp [hst]))] at heffect
        exact heffect
      | unchanged =>
        have hsame := hkept₁ impi (Irs.notMem_impisIn (by simp [hst]))
        rw [hkept₃ impi (Irs.notMem_impisIn (by simp [hst]))]
        cases hr : irs.refreshed with
        | true =>
          have heffect := hrefreshed hr impi (Data.mem_elementsInState.mpr hst)
          rw [hsame] at heffect
          simpa using heffect
        | false =>
          rw [hkept₂ impi (.inr hr), hsame]
          simp

/-! ### The loops over associated IMPUs -/

/-- The effect of removing an associated IMPU of `D` on one record. -/
def AssociatedRemoved (D : String) (v v' : Option (Nat × Blob ImpuData)) : Prop :=
  match v with
  | some (_, .decoded (.associated D' _)) => if D' = D then v' = none else v' = v
  | _ => v' = v

/-- The key holds an associated IMPU of `D`. -/
def AssociatedWritten (D : String) (v' : Option (Nat × Blob ImpuData)) : Prop :=
  ∃ cas expiry, v' = some (cas, .decoded (.associated D expiry))

/-- The effect of `update_irs_associated_impus` on one record. -/
def AssociatedEffect (irs : Irs) (impu : String) (v v' : Option (Nat × Blob ImpuData)) : Prop :=
  match irs.associatedImpus[impu]? with
  | some .deleted => AssociatedRemoved irs.defaultImpu v v'
  | some .added => AssociatedWritten irs.defaultImpu v'
  | some .unchanged => if irs.refreshed then AssociatedWritten irs.defaultImpu v' else v' = v
  | none => v' = v

/-- The removal of one associated IMPU. It needs one pass. -/
theorem eval_removeAssociatedImpu (irs : Irs) (s : StoreId) (impu : String) (w : World) :
    ∃ w', Eval serve (removeAssociatedImpu irs s impu .ok) w .ok w' ∧ ImpusOnly s w w' ∧
      AssociatedRemoved irs.defaultImpu ((w.stores s).impus.cells impu)
        ((w'.stores s).impus.cells impu) ∧
      ∀ k, k ≠ impu → (w'.stores s).impus.cells k = (w.stores s).impus.cells k := by
  suffices hpass : ∃ w', Eval serve (removeAssociatedImpuPass irs s impu .ok) w .ok w' ∧
      ImpusOnly s w w' ∧
      AssociatedRemoved irs.defaultImpu ((w.stores s).impus.cells impu)
        ((w'.stores s).impus.cells impu) ∧
      ∀ k, k ≠ impu → (w'.stores s).impus.cells k = (w.stores s).impus.cells k by
    obtain ⟨w', he, hrest⟩ := hpass
    exact ⟨w', he.loop_once rfl, hrest⟩
  have hget := eval_getImpu s impu w
  cases hcell : (w.stores s).impus.cells impu with
  | none =>
    rw [ImpuStore.getImpu_of_none hcell] at hget
    exact ⟨w, hget.bind (.ret _ _), .refl _ _, hcell, fun _ _ => rfl⟩
  | some p =>
    obtain ⟨cas, blob⟩ := p
    cases blob with
    | corrupt =>
      rw [ImpuStore.getImpu_of_corrupt hcell] at hget
      exact ⟨w, hget.bind (.ret _ _), .refl _ _, hcell, fun _ _ => rfl⟩
    | decoded data =>
      rw [ImpuStore.getImpu_of_decoded hcell] at hget
      cases data with
      | default d => exact ⟨w, hget.bind (.ret _ _), .refl _ _, hcell, fun _ _ => rfl⟩
      | associated D' expiry =>
        -- Only a record that points at the default IMPU is deleted.
        by_cases hD : D' = irs.defaultImpu
        · refine ⟨_, hget.bind ?_, .setImpus s w ((w.stores s).impus.erase impu), ?_, ?_⟩
          · simp only [ImpuData.fromData, hD, if_true]
            exact eval_deleteImpu _ _ _
          · simp [AssociatedRemoved, hD]
          · intro k hk
            simp [CasTable.erase_cells_ne _ hk]
        · refine ⟨w, hget.bind ?_, .refl _ _, ?_, fun _ _ => rfl⟩
          · simp only [ImpuData.fromData, hD, if_false]
            exact .ret _ _
          · simp [AssociatedRemoved, hD, hcell]

/-- The write of one associated IMPU. -/
theorem eval_writeAssociatedImpu (irs : Irs) (s : StoreId) (impu : String) (status : Status)
    (w : World) :
    ∃ w', Eval serve (writeAssociatedImpu irs s impu status) w status w' ∧ ImpusOnly s w w' ∧
      AssociatedWritten irs.defaultImpu ((w'.stores s).impus.cells impu) ∧
      ∀ k, k ≠ impu → (w'.stores s).impus.cells k = (w.stores s).impus.cells k := by
  refine ⟨_, (eval_timeNow w).bind ((eval_setImpuWithoutCas s _ _).bind (.ret _ _)),
    (ImpusOnly.tick s w).trans (.setImpus s _ _), ?_, ?_⟩
  · rw [World.setImpus_stores_self]
    exact ⟨_, _, CasTable.put_cells_self _ _ _⟩
  · intro k hk
    rw [World.setImpus_stores_self]
    exact CasTable.put_cells_ne _ _ hk

/-- A loop that writes associated IMPUs. -/
theorem eval_writeAssociatedImpus (irs : Irs) (s : StoreId) (state : State) (w : World) :
    ∃ w', Eval serve (Prog.forEach (irs.impusIn state) (writeAssociatedImpu irs s) .ok)
        w .ok w' ∧
      ImpusOnly s w w' ∧
      (∀ impu ∈ irs.impusIn state,
        AssociatedWritten irs.defaultImpu ((w'.stores s).impus.cells impu)) ∧
      ∀ impu, impu ∉ irs.impusIn state →
        (w'.stores s).impus.cells impu = (w.stores s).impus.cells impu := by
  obtain ⟨st, w', he, rfl, hrest⟩ := Eval.forEach_keys
    (fun w impu => (w.stores s).impus.cells impu) (fun st => st = Status.ok)
    (fun _ _ v' => AssociatedWritten irs.defaultImpu v') (ImpusOnly s) (.refl s)
    (fun _ _ _ => .trans) (Data.nodup_elementsInState irs.associatedImpus state) (w := w) rfl
    (fun impu _ st v hst _ _ => by
      obtain ⟨v', he, hrest⟩ := eval_writeAssociatedImpu irs s impu st v
      exact ⟨_, v', he, hst, hrest⟩)
  exact ⟨w', he, hrest⟩

/-- The loop over the deleted associated IMPUs. -/
theorem eval_removeAssociatedImpus (irs : Irs) (s : StoreId) (w : World) :
    ∃ w', Eval serve (Prog.forEach (irs.impusIn .deleted) (removeAssociatedImpu irs s) .ok)
        w .ok w' ∧
      ImpusOnly s w w' ∧
      (∀ impu ∈ irs.impusIn .deleted, AssociatedRemoved irs.defaultImpu
        ((w.stores s).impus.cells impu) ((w'.stores s).impus.cells impu)) ∧
      ∀ impu, impu ∉ irs.impusIn .deleted →
        (w'.stores s).impus.cells impu = (w.stores s).impus.cells impu := by
  obtain ⟨st, w', he, rfl, hrest⟩ := Eval.forEach_keys
    (fun w impu => (w.stores s).impus.cells impu) (fun st => st = Status.ok)
    (fun _ => AssociatedRemoved irs.defaultImpu) (ImpusOnly s) (.refl s)
    (fun _ _ _ => .trans) (Data.nodup_elementsInState irs.associatedImpus .deleted) (w := w)
    rfl
    (fun impu _ st v hst _ _ => by
      subst hst
      obtain ⟨v', he, hrest⟩ := eval_removeAssociatedImpu irs s impu v
      exact ⟨_, v', he, rfl, hrest⟩)
  exact ⟨w', he, hrest⟩

/-- The three loops in sequence. -/
theorem updateIrsAssociatedImpus_eq (irs : Irs) (s : StoreId) :
    updateIrsAssociatedImpus irs s
      = Prog.forEach (irs.impusIn .deleted) (removeAssociatedImpu irs s) .ok >>= fun status =>
        (if irs.refreshed then
          Prog.forEach (irs.impusIn .unchanged) (writeAssociatedImpu irs s) status
        else pure status) >>= Prog.forEach (irs.impusIn .added) (writeAssociatedImpu irs s) := by
  unfold updateIrsAssociatedImpus
  cases irs.refreshed <;> rfl

/-- `update_irs_associated_impus` alone on the store: it ends with `OK`, and every record
changes as the state of its IMPU says. -/
theorem eval_updateIrsAssociatedImpus (irs : Irs) (s : StoreId) (w : World) :
    ∃ w', Eval serve (updateIrsAssociatedImpus irs s) w .ok w' ∧ ImpusOnly s w w' ∧
      ∀ impu, AssociatedEffect irs impu ((w.stores s).impus.cells impu)
        ((w'.stores s).impus.cells impu) := by
  rw [updateIrsAssociatedImpus_eq]
  obtain ⟨w₁, he₁, honly₁, hremoved, hkept₁⟩ := eval_removeAssociatedImpus irs s w
  have hmid : ∃ w₂, Eval serve (if irs.refreshed then
        Prog.forEach (irs.impusIn .unchanged) (writeAssociatedImpu irs s) .ok else pure .ok)
        w₁ .ok w₂ ∧ ImpusOnly s w₁ w₂ ∧
      (irs.refreshed = true → ∀ impu ∈ irs.impusIn .unchanged,
        AssociatedWritten irs.defaultImpu ((w₂.stores s).impus.cells impu)) ∧
      ∀ impu, (impu ∉ irs.impusIn .unchanged ∨ irs.refreshed = false) →
        (w₂.stores s).impus.cells impu = (w₁.stores s).impus.cells impu := by
    cases hr : irs.refreshed with
    | false => exact ⟨w₁, .ret _ _, .refl _ _, nofun, fun _ _ => rfl⟩
    | true =>
      obtain ⟨w₂, he₂, honly₂, hwritten, hkept₂⟩ := eval_writeAssociatedImpus irs s .unchanged w₁
      refine ⟨w₂, he₂, honly₂, fun _ => hwritten, fun impu himpu => hkept₂ impu ?_⟩
      simpa using himpu
  obtain ⟨w₂, he₂, honly₂, hrefreshed, hkept₂⟩ := hmid
  obtain ⟨w₃, he₃, honly₃, hadded, hkept₃⟩ := eval_writeAssociatedImpus irs s .added w₂
  -- The state of an element decides which of the three loops has touched its key.
  refine ⟨w₃, he₁.bind (he₂.bind he₃), (honly₁.trans honly₂).trans honly₃, fun impu => ?_⟩
  unfold AssociatedEffect
  cases hst : irs.associatedImpus[impu]? with
  | none =>
    show (w₃.stores s).impus.cells impu = (w.stores s).impus.cells impu
    rw [hkept₃ impu (Irs.notMem_impusIn (by simp [hst])),
      hkept₂ impu (.inl (Irs.notMem_impusIn (by simp [hst]))),
      hkept₁ impu (Irs.notMem_impusIn (by simp [hst]))]
  | some st =>
    cases st with
    | deleted =>
      show AssociatedRemoved _ _ _
      rw [hkept₃ impu (Irs.notMem_impusIn (by simp [hst])),
        hkept₂ impu (.inl (Irs.notMem_impusIn (by simp [hst])))]
      exact hremoved impu (Data.mem_elementsInState.mpr hst)
    | added => exact hadded impu (Data.mem_elementsInState.mpr hst)
    | unchanged =>
      rw [hkept₃ impu (Irs.notMem_impusIn (by simp [hst]))]
      cases hr : irs.refreshed with
      | true => simpa using hrefreshed hr impu (Data.mem_elementsInState.mpr hst)
      | false =>
        rw [hkept₂ impu (.inr hr), hkept₁ impu (Irs.notMem_impusIn (by simp [hst]))]
        simp

end Homestead

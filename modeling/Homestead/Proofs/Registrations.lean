import Homestead.Model.Node
import Homestead.Proofs.DeleteComplete
import Homestead.Proofs.ForeignLookup
import Homestead.Proofs.GeoClosure
import Homestead.Proofs.PutThenGet
import Homestead.Proofs.Setters

/-!
# `Homestead.Proofs.Registrations`: the records of a store as registrations

`ImpuStore.table` reads the registrations off the records of a store. `Consistent dir st` is the
invariant that makes the store one such table: the records under the identities of a subscriber
belong together as the directory says, and the mappings are those of the IMPIs that are listed.
The stores of a cache are in sync (`MemcachedCache.InSync`) when all of them hold the same table.

* `MemcachedCache.InSync.defaultImpuFor_some`, `MemcachedCache.InSync.defaultImpuFor_none`: a lookup
  of any identity of a subscriber finds the record of the subscriber, and one of another identity
  finds nothing.
* `ImpuStore.Represents.put`: a put on one store keeps the invariant and is an update of the table.
  The store may be the one that the IRS was read from or another one.
* `ImpuStore.Represents.delete`: so does a delete.
-/

set_option autoImplicit false

namespace Homestead

open CacheProg

/-! ### The table of a store -/

/-- The registration that a record stands for. -/
def DefaultImpuData.registration (d : DefaultImpuData) : Registration where
  registered := d.registrationState
  impis := {impi | impi ∈ d.impis}
  profile := d.serviceProfile
  chargingAddresses := { ccfs := d.ccfs, ecfs := d.ecfs }

/-- The registrations that a store holds. -/
def ImpuStore.table (st : ImpuStore) : Table := fun D => (st.defaultAt D).map (·.registration)

/-- The IRS of a record stands for the registration of the record. -/
theorem registration_ofDefaultImpu (d : DefaultImpuData) (D : String) (cas : Nat) (s : StoreId)
    (now : Int) : (Irs.ofDefaultImpu (d.fromData D cas s) now).registration = d.registration := by
  refine Registration.ext ?_ ?_ rfl rfl
  · cases hstate : d.registrationState <;>
      simp [Irs.registration, Irs.ofDefaultImpu, DefaultImpuData.fromData,
        DefaultImpuData.registration, hstate]
  · ext impi
    exact Data.mem_present_ofStored

/-- A mapping that leads somewhere, or none. -/
def LeadsSomewhere (v : Option (Nat × Blob MappingData)) : Prop :=
  ∀ cas m, v = some (cas, .decoded m) → m.defaultImpus ≠ []

/-- The records of the store are those of the directory's subscribers. -/
structure Consistent (dir : Directory) (st : ImpuStore) : Prop where
  decodable : st.Decodable
  listed : ∀ D d, st.defaultAt D = some d → dir.defaultOf D = some D ∧
    ∀ a, a ∈ d.assocImpu ↔ a ≠ D ∧ dir.defaultOf a = some D
  pointsAt : ∀ a D, st.PointsAt a D ↔
    a ≠ D ∧ dir.defaultOf a = some D ∧ ∃ d, st.defaultAt D = some d
  maps : ∀ impi D, st.Maps impi D ↔ ∃ d, st.defaultAt D = some d ∧ impi ∈ d.impis
  leads : ∀ impi, LeadsSomewhere (st.mappings.cells impi)

theorem consistent_empty (dir : Directory) : Consistent dir .empty where
  decodable :=
    { impus := fun _ h => nomatch h
      mappings := fun _ h => nomatch h }
  listed D d h := by cases h
  pointsAt a D := by
    constructor
    · rintro ⟨expiry, h⟩
      cases h
    · rintro ⟨-, -, d, h⟩
      cases h
  maps impi D := by
    constructor
    · rintro ⟨m, h, -⟩
      cases h
    · rintro ⟨d, h, -⟩
      cases h
  leads impi cas m h := by cases h

namespace Consistent

variable {dir : Directory} {st : ImpuStore}

/-- What a key holds: the record of a subscriber, an alias of one, or nothing. -/
theorem cells_cases (h : Consistent dir st) (key : String) :
    st.impus.cells key = none ∨
      (∃ cas d, st.impus.cells key = some (cas, .decoded (.default d)) ∧
        st.defaultAt key = some d ∧ dir.defaultOf key = some key) ∨
      ∃ cas D expiry d, st.impus.cells key = some (cas, .decoded (.associated D expiry)) ∧
        key ≠ D ∧ dir.defaultOf key = some D ∧ st.defaultAt D = some d := by
  cases hcell : st.impus.cells key with
  | none => exact .inl rfl
  | some p =>
    obtain ⟨cas, blob⟩ := p
    have hvalue := CasTable.value?_of_cells hcell
    cases blob with
    | corrupt => exact absurd hvalue (h.decodable.impus key)
    | decoded data =>
      cases data with
      | default d =>
        have hd := ImpuStore.defaultAt_eq_some.mpr hvalue
        exact .inr (.inl ⟨cas, d, rfl, hd, (h.listed key d hd).1⟩)
      | associated D expiry =>
        obtain ⟨hne, hdir, d, hd⟩ := (h.pointsAt key D).mp ⟨expiry, hvalue⟩
        exact .inr (.inr ⟨cas, D, expiry, d, rfl, hne, hdir, hd⟩)

/-- An identity whose subscriber has no record has none either. -/
theorem cells_of_none (h : Consistent dir st) {key : String}
    (hnone : dir.find st.table key = none) : st.impus.cells key = none := by
  rcases h.cells_cases key with hcell | ⟨cas, d, -, hd, hdir⟩ | ⟨cas, D, expiry, d, -, -, hdir, hd⟩
  · exact hcell
  · simp [Directory.find_of_some hdir, ImpuStore.table, hd] at hnone
  · simp [Directory.find_of_some hdir, ImpuStore.table, hd] at hnone

/-- A subscriber that the store has is two-way consistent. -/
theorem twoWay (h : Consistent dir st) {D : String} (hD : dir.defaultOf D = some D) :
    TwoWay D st where
  record blob hblob := by
    rcases h.cells_cases D with hcell | ⟨cas, d, hcell, -⟩ | ⟨cas, E, expiry, d, -, hne, hdir, -⟩
    · rw [CasTable.value?_eq_none.mpr hcell] at hblob
      cases hblob
    · rw [CasTable.value?_of_cells hcell] at hblob
      cases hblob
      exact ⟨d, rfl⟩
    · rw [hD] at hdir
      cases hdir
      exact absurd rfl hne
  associated x := by
    rw [h.pointsAt]
    constructor
    · rintro ⟨hne, hdir, d, hd⟩
      exact ⟨d, hd, ((h.listed D d hd).2 x).mpr ⟨hne, hdir⟩⟩
    · rintro ⟨d, hd, hx⟩
      obtain ⟨hne, hdir⟩ := ((h.listed D d hd).2 x).mp hx
      exact ⟨hne, hdir, d, hd⟩
  mapped impi := h.maps impi D

/-- An identity leads to a registration exactly when there is something under it. -/
theorem cells_eq_none_iff (h : Consistent dir st) (key : String) :
    st.impus.cells key = none ↔ dir.find st.table key = none := by
  refine ⟨fun hcell => ?_, h.cells_of_none⟩
  cases hdir : dir.defaultOf key with
  | none => exact Directory.find_of_none hdir _
  | some D =>
    rw [Directory.find_of_some hdir, ImpuStore.table, Option.map_eq_none_iff]
    by_contra hsome
    obtain ⟨d, hd⟩ := Option.ne_none_iff_exists'.mp hsome
    have hnone := CasTable.value?_eq_none.mpr hcell
    by_cases hkey : key = D
    · rw [hkey, ImpuStore.defaultAt_eq_some.mp hd] at hnone
      cases hnone
    · obtain ⟨expiry, hvalue⟩ := (h.pointsAt key D).mpr ⟨hkey, hdir, d, hd⟩
      rw [hvalue] at hnone
      cases hnone

end Consistent

/-! ### Lookups -/

/-- The store holds the registrations of the table, and nothing else. -/
structure ImpuStore.Represents (st : ImpuStore) (dir : Directory) (tbl : Table) : Prop where
  consistent : Consistent dir st
  table : st.table = tbl

/-- Every store of the cache holds the registrations of the table. -/
def MemcachedCache.InSync (cache : MemcachedCache) (dir : Directory) (w : World) (tbl : Table) :
    Prop :=
  ∀ s ∈ cache.stores, (w.stores s).Represents dir tbl

namespace MemcachedCache

variable {dir : Directory} {cache : MemcachedCache} {w : World} {tbl : Table}

/-- Where no remote store has a record that the local one lacks, the lookup sees the local one. -/
theorem impuGr_eq_local {key : String} (h : (w.stores cache.localStore).impus.cells key = none →
      ∀ s ∈ cache.remoteStores, (w.stores s).impus.cells key = none) :
    cache.impuGr w key = (w.stores cache.localStore).getImpu cache.localStore key := by
  unfold impuGr
  cases hcell : (w.stores cache.localStore).impus.cells key with
  | some p =>
    obtain ⟨cas, blob⟩ := p
    rw [if_neg]
    cases blob with
    | corrupt => simp [ImpuStore.getImpu_of_corrupt hcell]
    | decoded data => simp [ImpuStore.getImpu_of_decoded hcell]
  | none =>
    have hremote := h hcell
    rw [ImpuStore.getImpu_of_none hcell, if_pos rfl]
    generalize cache.remoteStores = rs at hremote
    induction rs with
    | nil => rfl
    | cons s rs ih =>
      rw [List.foldl_cons, ImpuStore.getImpu_of_none (hremote s List.mem_cons_self),
        if_neg (by simp)]
      exact ih fun s' hs' => hremote s' (List.mem_cons_of_mem _ hs')

namespace InSync

theorem of_stores (h : cache.InSync dir w tbl) {w' : World} (hstores : w'.stores = w.stores) :
    cache.InSync dir w' tbl := by
  intro s hs
  rw [hstores]
  exact h s hs

/-- A reading of the clock leaves the stores. -/
theorem tick (h : cache.InSync dir w tbl) : cache.InSync dir w.tick tbl := h.of_stores rfl

theorem localStore (h : cache.InSync dir w tbl) :
    (w.stores cache.localStore).Represents dir tbl :=
  h _ List.mem_cons_self

theorem impuGr (h : cache.InSync dir w tbl) (key : String) :
    cache.impuGr w key = (w.stores cache.localStore).getImpu cache.localStore key := by
  refine impuGr_eq_local fun hcell s hs => ?_
  have hremote := h s (List.mem_cons_of_mem _ hs)
  rw [h.localStore.consistent.cells_eq_none_iff, h.localStore.table] at hcell
  rwa [hremote.consistent.cells_eq_none_iff, hremote.table]

/-- An identity of a subscriber with a record leads to the record. -/
theorem defaultImpuFor_some (h : cache.InSync dir w tbl) {id D : String}
    (hdir : dir.defaultOf id = some D) {cas : Nat} {d : DefaultImpuData}
    (hcell : (w.stores cache.localStore).impus.cells D = some (cas, .decoded (.default d))) :
    cache.defaultImpuFor w id = (.ok, some (d.fromData D cas cache.localStore)) := by
  have hcons := h.localStore.consistent
  have hd : (w.stores cache.localStore).defaultAt D = some d :=
    ImpuStore.defaultAt_eq_some.mpr (CasTable.value?_of_cells hcell)
  have hget : cache.impuGr w D = (.ok, some (.default (d.fromData D cas cache.localStore))) := by
    rw [h.impuGr]
    exact ImpuStore.getImpu_of_decoded hcell
  unfold MemcachedCache.defaultImpuFor
  by_cases hne : id = D
  · rw [hne, hget]
  · -- The alias points at the record, which lists it.
    obtain ⟨expiry, hvalue⟩ := (hcons.pointsAt id D).mpr ⟨hne, hdir, d, hd⟩
    obtain ⟨cas', hcell'⟩ := CasTable.value?_eq_some.mp hvalue
    have halias := (hcons.listed D d hd).2 id
    rw [h.impuGr, ImpuStore.getImpu_of_decoded hcell']
    simp only [ImpuData.fromData, hget, MemcachedCache.checkTarget]
    rw [if_pos]
    exact decide_eq_true (halias.mpr ⟨hne, hdir⟩)

/-- Any other identity leads to nothing. -/
theorem defaultImpuFor_none (h : cache.InSync dir w tbl) {id : String}
    (hnone : dir.find tbl id = none) : cache.defaultImpuFor w id = (.notFound, none) := by
  rw [← h.localStore.table] at hnone
  unfold MemcachedCache.defaultImpuFor
  rw [h.impuGr, ImpuStore.getImpu_of_none (h.localStore.consistent.cells_of_none hnone)]

end InSync

end MemcachedCache

/-- Stores that are all empty are in sync. -/
theorem inSync_empty (cache : MemcachedCache) (dir : Directory) (w : World)
    (hempty : w.stores = fun _ => .empty) : cache.InSync dir w fun _ => none := by
  intro s _
  rw [hempty]
  exact ⟨consistent_empty dir, rfl⟩

/-! ### Puts -/

/-- An IRS that tracks the identities of the subscriber, and no others. -/
structure Irs.TracksAll (irs : Irs) (dir : Directory) (D : String) : Prop where
  defaultImpu : irs.defaultImpu = D
  tracked : ∀ k, k ≠ D → dir.defaultOf k = some D →
    irs.associatedImpus[k]? = some .added ∨ irs.associatedImpus[k]? = some .unchanged
  untracked : ∀ k, k = D ∨ dir.defaultOf k ≠ some D → irs.associatedImpus[k]? = none

/-- The IRS was read from a record of the registration: it tracks the IMPIs, and what is not set is
as the registration has it. -/
structure Irs.Follows (irs : Irs) (r : Registration) : Prop where
  keeps : ∀ impi ∈ r.impis, irs.impis[impi]? ≠ none
  unchanged : ∀ impi : String, irs.impis[impi]? = some .unchanged → impi ∈ r.impis
  registrationState : irs.registrationStateSet = false →
    irs.registrationState = if r.registered then .registered else .unregistered
  imsSubXml : irs.imsSubXmlSet = false → irs.imsSubXml = r.profile
  chargingAddresses : irs.chargingAddressesSet = false →
    irs.chargingAddresses = r.chargingAddresses

/-- An IRS for the subscriber `D` that may be put on a store with the registration `r?`: it tracks
the identities of the subscriber, and follows the registration, or is new if there is none. -/
structure Irs.PutsFor (irs : Irs) (dir : Directory) (D : String) (r? : Option Registration) : Prop
    extends irs.TracksAll dir D where
  notDeleted : ∀ impi : String, irs.impis[impi]? ≠ some .deleted
  source : (irs.existing = true ∧ ∃ r, r? = some r ∧ irs.Follows r) ∨
    irs.existing = false ∧ irs.refreshed = true ∧ r? = none

section PutsFor

variable {dir : Directory} {irs : Irs} {D : String} {st : ImpuStore}

/-- The IRS with another TTL, which is for the expiry of the records only. -/
def Irs.withTtl (irs : Irs) (ttl : Int) : Irs := { irs with ttl := ttl }

theorem Irs.registration_withTtl (irs : Irs) (ttl : Int) :
    (irs.withTtl ttl).registration = irs.registration := rfl

theorem Irs.PutsFor.withTtl {r? : Option Registration} (h : irs.PutsFor dir D r?) (ttl : Int) :
    (irs.withTtl ttl).PutsFor dir D r? := by
  refine ⟨⟨h.defaultImpu, h.tracked, h.untracked⟩, h.notDeleted, ?_⟩
  rcases h.source with ⟨hexisting, r, hr, hfollows⟩ | hnew
  · exact .inl ⟨hexisting, r, hr, hfollows.keeps, hfollows.unchanged, hfollows.registrationState,
      hfollows.imsSubXml, hfollows.chargingAddresses⟩
  · exact .inr hnew

/-- The record of the store is one that the IRS follows. -/
theorem Irs.PutsFor.follows (h : irs.PutsFor dir D (st.table D)) {d : DefaultImpuData}
    (hd : st.defaultAt D = some d) : irs.Follows d.registration := by
  have hr : st.table D = some d.registration := by rw [ImpuStore.table, hd, Option.map_some]
  rcases h.source with ⟨-, r, hr', hfollows⟩ | ⟨-, -, hnone⟩
  · rw [hr] at hr'
    cases hr'
    exact hfollows
  · rw [hr] at hnone
    cases hnone

/-- An IRS that is not refreshed has its unchanged IMPIs from the record. -/
theorem Irs.PutsFor.kept (h : irs.PutsFor dir D (st.table D)) (hrefreshed : irs.refreshed = false) :
    ∃ d, st.defaultAt D = some d ∧
      ∀ impi : String, irs.impis[impi]? = some .unchanged → impi ∈ d.impis := by
  rcases h.source with ⟨-, r, hr, hfollows⟩ | ⟨-, hnew, -⟩
  · obtain ⟨d, hd, rfl⟩ := Option.map_eq_some_iff.mp hr
    exact ⟨d, hd, hfollows.unchanged⟩
  · rw [hrefreshed] at hnew
    cases hnew

/-- What the IRS takes over from the record is the TTL and nothing else. -/
theorem Irs.PutsFor.updateFromImpuFromStore (hcons : Consistent dir st)
    (h : irs.PutsFor dir D (st.table D)) {d : DefaultImpuData} (hd : st.defaultAt D = some d)
    (cas : Nat) (s : StoreId) (now : Int) :
    ∃ ttl, irs.updateFromImpuFromStore (d.fromData D cas s) now = irs.withTtl ttl := by
  have hfollows := h.follows hd
  have hlisted := (hcons.listed D d hd).2
  have himpis : Data.Follows irs.impis d.impis := ⟨hfollows.keeps, hfollows.unchanged⟩
  have hassociated : Data.Follows irs.associatedImpus d.assocImpu := by
    constructor
    · intro x hx hnone
      obtain ⟨hne, hdir⟩ := (hlisted x).mp hx
      have htracked := h.tracked x hne hdir
      simp [hnone] at htracked
    · intro x hx
      by_contra hnot
      rw [hlisted, not_and_or, not_not] at hnot
      rw [h.untracked x hnot] at hx
      cases hx
  have hemplaced : irs.associatedImpus.emplaceDeleted d.assocImpu = irs.associatedImpus := by
    refine Std.ExtTreeMap.ext_getElem? fun {x} => ?_
    rw [Data.getElem?_emplaceDeleted, if_neg]
    exact fun hx => hassociated.tracked x hx.1 hx.2
  refine ⟨if irs.refreshed then irs.ttl else toInt32 (d.expiry - toInt32 now), ?_⟩
  unfold Irs.updateFromImpuFromStore Irs.withTtl
  congr 1
  · exact himpis.mergeDataSets_eq
  · dsimp only [DefaultImpuData.fromData]
    rw [hemplaced, hassociated.mergeDataSets_eq, ite_self]
  · split
    · rfl
    · rename_i hset
      exact (hfollows.imsSubXml (by simpa using hset)).symm
  · split
    · rfl
    · rename_i hset
      exact (hfollows.chargingAddresses (by simpa using hset)).symm
  · split
    · rfl
    · rename_i hset
      exact (hfollows.registrationState (by simpa using hset)).symm

end PutsFor

/-- The first operation of the put writes the record, on any store. -/
theorem Irs.PutsFor.eval_putIrsImpu {irs : Irs} {dir : Directory} {D : String} {s : StoreId}
    {w : World} (hcons : Consistent dir (w.stores s)) (hD : dir.defaultOf D = some D)
    (h : irs.PutsFor dir D ((w.stores s).table D)) :
    ∃ ttl w₁, Eval serve (putIrsImpu irs s) w (.ok, irs.withTtl ttl) w₁ ∧
      RecordWritten (irs.withTtl ttl) s w w₁ := by
  unfold putIrsImpu
  rcases h.source with ⟨hexisting, r, hr, -⟩ | ⟨hexisting, -, hnone⟩
  · obtain ⟨d, hd, -⟩ := Option.map_eq_some_iff.mp hr
    obtain ⟨cas, hcell⟩ := CasTable.value?_eq_some.mp (ImpuStore.defaultAt_eq_some.mp hd)
    rw [if_pos hexisting]
    obtain ⟨status, irs', w₁, he, hcases⟩ :=
      eval_updateIrsImpu irs s (.inr (hcons.decodable.impus irs.defaultImpu))
    rcases hcases with ⟨rfl, hwritten, ⟨-, rfl⟩ | ⟨-, -, now, rfl⟩⟩ | ⟨-, -, ⟨-, E, hpoints⟩, -⟩
    · exact ⟨irs'.ttl, w₁, he, hwritten⟩
    · -- The store is not the one that the IRS was read from.
      obtain ⟨ttl, hmerged⟩ := h.updateFromImpuFromStore hcons hd cas s now
      rw [h.defaultImpu, hcell, Irs.merged, h.defaultImpu, hmerged] at he hwritten
      exact ⟨ttl, w₁, he, hwritten⟩
    · obtain ⟨expiry, hvalue⟩ := hpoints
      rw [h.defaultImpu, ImpuStore.defaultAt_eq_some.mp hd] at hvalue
      cases hvalue
  · rw [if_neg (by simp [hexisting])]
    obtain ⟨w₁, he, hcases⟩ := eval_createIrsImpu irs s w
    refine ⟨irs.ttl, w₁, he.bind (.ret _ _), ?_⟩
    rcases hcases with ⟨hwritten, -⟩ | ⟨-, hsome, -⟩
    · exact hwritten.toRecordWritten
    · rw [h.defaultImpu, ne_eq, hcons.cells_eq_none_iff, Directory.find_of_some hD] at hsome
      exact absurd hnone hsome

/-- An added `D` leaves the other default IMPUs of a mapping. -/
theorem maps_iff_of_mappingAdded {st st' : ImpuStore} {impi D E : String} (hne : E ≠ D)
    (h : MappingAdded D (st.mappings.cells impi) (st'.mappings.cells impi)) :
    st'.Maps impi E ↔ st.Maps impi E := by
  cases hcell : st.mappings.cells impi with
  | none =>
    rw [hcell] at h
    obtain ⟨cas, expiry, hcell'⟩ := h
    rw [maps_of_cells hcell']
    constructor
    · intro hmem
      exact absurd (List.mem_singleton.mp hmem) hne
    · rintro ⟨m, hvalue, -⟩
      rw [CasTable.value?_eq_none.mpr hcell] at hvalue
      cases hvalue
  | some p =>
    obtain ⟨cas, blob⟩ := p
    rw [hcell] at h
    cases blob with
    | corrupt =>
      have hcell' : st'.mappings.cells impi = some (cas, .corrupt) := h
      simp [ImpuStore.Maps, CasTable.value?_of_cells hcell, CasTable.value?_of_cells hcell']
    | decoded m =>
      obtain ⟨cas', expiry, hcell'⟩ := h
      rw [maps_of_cells hcell', maps_of_cells hcell]
      split
      · rfl
      · simp [hne]

/-- An added `D` is in the mapping. -/
theorem leadsSomewhere_of_added {D : String} {v v' : Option (Nat × Blob MappingData)}
    (h : MappingAdded D v v') : LeadsSomewhere v' := by
  rintro cas m rfl hnil
  unfold MappingAdded at h
  split at h
  · obtain ⟨cas', expiry, h⟩ := h
    cases h
    cases hnil
  · rename_i m' _
    obtain ⟨cas', expiry, h⟩ := h
    cases h
    simp only at hnil
    split at hnil
    · rename_i hmem
      rw [hnil] at hmem
      cases hmem
    · simp at hnil
  · cases h

section Put

variable {dir : Directory} {irs : Irs} {D : String} {s : StoreId} {w w₁ w' : World}

/-- A key that the IRS does not track, and is not its own, is as it was. -/
theorem cells_of_put (h : irs.PutsFor dir D ((w.stores s).table D))
    (hwritten : RecordWritten irs s w w₁)
    (hupd : Updated irs s w₁ w') {k : String} (hne : k ≠ D) (hk : dir.defaultOf k ≠ some D) :
    (w'.stores s).impus.cells k = (w.stores s).impus.cells k := by
  rw [hupd.cells_of_untracked (h.untracked k (.inr hk))]
  exact hwritten.others k (by rwa [h.defaultImpu])

/-- The record of the subscriber. -/
theorem defaultAt_of_put (h : irs.PutsFor dir D ((w.stores s).table D))
    (hwritten : RecordWritten irs s w w₁) (hupd : Updated irs s w₁ w') :
    ∃ expiry, (w'.stores s).defaultAt D = some (irs.recordData expiry) := by
  obtain ⟨cas, expiry, hcell⟩ := hwritten.written
  rw [h.defaultImpu, ← hupd.cells_of_untracked (h.untracked D (.inl rfl))] at hcell
  exact ⟨expiry, ImpuStore.defaultAt_eq_some.mpr (CasTable.value?_of_cells hcell)⟩

/-- The aliases of the subscriber. -/
theorem pointsAt_of_put (hcons : Consistent dir (w.stores s))
    (h : irs.PutsFor dir D ((w.stores s).table D))
    (hwritten : RecordWritten irs s w w₁) (hupd : Updated irs s w₁ w') {a : String} (hne : a ≠ D)
    (ha : dir.defaultOf a = some D) : (w'.stores s).PointsAt a D := by
  have hwrite : irs.associatedImpus[a]? = some .added ∨
      irs.associatedImpus[a]? = some .unchanged ∧ irs.refreshed = true →
      (w'.stores s).PointsAt a D := fun hx => h.defaultImpu ▸ hupd.pointsAt hx
  rcases h.tracked a hne ha with hadded | hunchanged
  · exact hwrite (.inl hadded)
  · cases hrefreshed : irs.refreshed with
    | true => exact hwrite (.inr ⟨hunchanged, hrefreshed⟩)
    | false =>
      -- The alias is not written, and was there before.
      obtain ⟨d, hd, -⟩ := h.kept hrefreshed
      obtain ⟨expiry, hvalue⟩ := (hcons.pointsAt a D).mpr ⟨hne, ha, d, hd⟩
      have heffect := hupd.impus a
      simp only [AssociatedEffect, hunchanged, hrefreshed] at heffect
      have hsame : (w'.stores s).impus.cells a = (w.stores s).impus.cells a :=
        (show _ = _ from heffect).trans (hwritten.others a (by rwa [h.defaultImpu]))
      exact ⟨expiry, by rwa [CasTable.value?, hsame]⟩

theorem not_defaultAt_of_pointsAt {st : ImpuStore} {a D : String} (h : st.PointsAt a D) :
    st.defaultAt a = none := by
  obtain ⟨expiry, hvalue⟩ := h
  simp [ImpuStore.defaultAt, hvalue]

/-- The records of the other subscribers. -/
theorem defaultAt_of_put_ne (hcons : Consistent dir (w.stores s))
    (h : irs.PutsFor dir D ((w.stores s).table D))
    (hwritten : RecordWritten irs s w w₁) (hupd : Updated irs s w₁ w') {E : String} (hne : E ≠ D) :
    (w'.stores s).defaultAt E = (w.stores s).defaultAt E := by
  by_cases hE : dir.defaultOf E = some D
  · rw [not_defaultAt_of_pointsAt (pointsAt_of_put hcons h hwritten hupd hne hE)]
    cases hd : (w.stores s).defaultAt E with
    | none => rfl
    | some d =>
      rw [(hcons.listed E d hd).1] at hE
      cases hE
      exact absurd rfl hne
  · exact ImpuStore.defaultAt_congr (cells_of_put h hwritten hupd hne hE)

/-- The identities that an IRS lists are those of the subscriber. -/
theorem Irs.PutsFor.mem_assocImpu (h : irs.PutsFor dir D ((w.stores s).table D)) {expiry : Int}
    {a : String} :
    a ∈ (irs.recordData expiry).assocImpu ↔ a ≠ D ∧ dir.defaultOf a = some D := by
  have hmem : a ∈ (irs.recordData expiry).assocImpu ↔
      irs.associatedImpus[a]? = some .unchanged ∨ irs.associatedImpus[a]? = some .added :=
    Data.mem_present
  rw [hmem]
  constructor
  · intro htracked
    by_contra hnot
    have hnone := h.untracked a (by
      by_cases ha : a = D
      · exact .inl ha
      · exact .inr fun hdir => hnot ⟨ha, hdir⟩)
    rw [hnone] at htracked
    simp at htracked
  · rintro ⟨hne, hdir⟩
    exact (h.tracked a hne hdir).symm

/-- The IMPIs that an IRS lists are those that it tracks. -/
theorem Irs.PutsFor.mem_impis (h : irs.PutsFor dir D ((w.stores s).table D)) {expiry : Int}
    {impi : String} :
    impi ∈ (irs.recordData expiry).impis ↔ irs.impis[impi]? ≠ none := by
  have hmem : impi ∈ (irs.recordData expiry).impis ↔
      irs.impis[impi]? = some .unchanged ∨ irs.impis[impi]? = some .added := Data.mem_present
  rw [hmem]
  have hnot := h.notDeleted impi
  cases hstate : irs.impis[impi]? with
  | none => simp
  | some state =>
    cases state with
    | deleted => exact absurd hstate hnot
    | added => simp
    | unchanged => simp

/-- The record that is written decodes, and so does everything else. -/
theorem decodable_of_put (hcons : Consistent dir (w.stores s)) (hwritten : RecordWritten irs s w w₁)
    (hupd : Updated irs s w₁ w') : (w'.stores s).Decodable := by
  have hmappings : (w₁.stores s).mappings = (w.stores s).mappings := hwritten.only.mappings
  refine hupd.decodable ⟨fun key hcorrupt => ?_, fun key => hmappings ▸ hcons.decodable.mappings key⟩
  obtain ⟨cas, hcell⟩ := CasTable.value?_eq_some.mp hcorrupt
  by_cases hk : key = irs.defaultImpu
  · obtain ⟨cas', expiry', hcell'⟩ := hwritten.written
    rw [hk, hcell'] at hcell
    cases hcell
  · rw [hwritten.others key hk] at hcell
    exact hcons.decodable.impus key (CasTable.value?_of_cells hcell)

/-- The aliases after the put. -/
theorem pointsAt_iff_of_put (hcons : Consistent dir (w.stores s)) (hD : dir.defaultOf D = some D)
    (h : irs.PutsFor dir D ((w.stores s).table D)) (hwritten : RecordWritten irs s w w₁)
    (hupd : Updated irs s w₁ w') (a E : String) : (w'.stores s).PointsAt a E ↔
      a ≠ E ∧ dir.defaultOf a = some E ∧ ∃ d, (w'.stores s).defaultAt E = some d := by
  obtain ⟨expiry, hrecord⟩ := defaultAt_of_put h hwritten hupd
  by_cases hE : E = D
  · subst hE
    constructor
    · intro hpoints
      have hne : a ≠ E := by
        rintro rfl
        rw [not_defaultAt_of_pointsAt hpoints] at hrecord
        cases hrecord
      refine ⟨hne, ?_, _, hrecord⟩
      by_contra hdir
      -- An alias that the IRS does not track was there before.
      obtain ⟨expiry', hvalue⟩ := hpoints
      have hsame := cells_of_put h hwritten hupd hne hdir
      refine hdir ((hcons.pointsAt a E).mp ⟨expiry', ?_⟩).2.1
      rwa [CasTable.value?, ← hsame]
    · rintro ⟨hne, hdir, -⟩
      exact pointsAt_of_put hcons h hwritten hupd hne hdir
  rw [defaultAt_of_put_ne hcons h hwritten hupd hE]
  by_cases haD : a = D
  · subst haD
    constructor
    · intro hpoints
      rw [not_defaultAt_of_pointsAt hpoints] at hrecord
      cases hrecord
    · rintro ⟨-, hdir, -⟩
      rw [hD] at hdir
      cases hdir
      exact absurd rfl hE
  by_cases hdir : dir.defaultOf a = some D
  · obtain ⟨expiry', hvalue⟩ := pointsAt_of_put hcons h hwritten hupd haD hdir
    constructor
    · rintro ⟨expiry'', hvalue'⟩
      rw [hvalue] at hvalue'
      cases hvalue'
      exact absurd rfl hE
    · rintro ⟨-, hdir', -⟩
      rw [hdir] at hdir'
      cases hdir'
      exact absurd rfl hE
  · have hsame := cells_of_put h hwritten hupd haD hdir
    rw [← hcons.pointsAt a E]
    unfold ImpuStore.PointsAt CasTable.value?
    rw [hsame]

/-- The mapping of an IMPI that the IRS tracks has the subscriber. -/
theorem maps_of_put (hcons : Consistent dir (w.stores s))
    (h : irs.PutsFor dir D ((w.stores s).table D))
    (hwritten : RecordWritten irs s w w₁) (hupd : Updated irs s w₁ w') {impi : String}
    (htracked : irs.impis[impi]? ≠ none) : (w'.stores s).Maps impi D := by
  have hmappings : (w₁.stores s).mappings = (w.stores s).mappings := hwritten.only.mappings
  have hwrite : irs.impis[impi]? = some .added ∨
      irs.impis[impi]? = some .unchanged ∧ irs.refreshed = true → (w'.stores s).Maps impi D :=
    fun hx => h.defaultImpu ▸ hupd.maps hx (by
      rw [hmappings]
      exact hcons.decodable.mappings impi)
  cases hstate : irs.impis[impi]? with
  | none => exact absurd hstate htracked
  | some state =>
    cases state with
    | deleted => exact absurd hstate (h.notDeleted impi)
    | added => exact hwrite (.inl hstate)
    | unchanged =>
      cases hrefreshed : irs.refreshed with
      | true => exact hwrite (.inr ⟨hstate, hrefreshed⟩)
      | false =>
        -- The mapping is not written, and had the subscriber before.
        obtain ⟨d, hd, himpis⟩ := h.kept hrefreshed
        obtain ⟨m, hvalue, hmem⟩ := (hcons.maps impi D).mpr ⟨d, hd, himpis impi hstate⟩
        have heffect := hupd.mappings impi
        simp only [MappingEffect, hstate, hrefreshed, hmappings] at heffect
        refine ⟨m, ?_, hmem⟩
        rwa [CasTable.value?, show _ = _ from heffect]

/-- The mappings of the other subscribers. -/
theorem maps_of_put_ne (h : irs.PutsFor dir D ((w.stores s).table D))
    (hwritten : RecordWritten irs s w w₁)
    (hupd : Updated irs s w₁ w') (impi : String) {E : String} (hne : E ≠ D) :
    (w'.stores s).Maps impi E ↔ (w.stores s).Maps impi E := by
  have heffect := hupd.mappings impi
  rw [show (w₁.stores s).mappings = (w.stores s).mappings from hwritten.only.mappings] at heffect
  have hne : E ≠ irs.defaultImpu := by rwa [h.defaultImpu]
  have hsame : (w'.stores s).mappings.cells impi = (w.stores s).mappings.cells impi →
      ((w'.stores s).Maps impi E ↔ (w.stores s).Maps impi E) := by
    intro hcells
    unfold ImpuStore.Maps CasTable.value?
    rw [hcells]
  unfold MappingEffect at heffect
  cases hstate : irs.impis[impi]? with
  | none =>
    simp only [hstate] at heffect
    exact hsame heffect
  | some state =>
    cases state with
    | deleted => exact absurd hstate (h.notDeleted impi)
    | added =>
      simp only [hstate] at heffect
      exact maps_iff_of_mappingAdded hne heffect
    | unchanged =>
      simp only [hstate] at heffect
      split at heffect
      · exact maps_iff_of_mappingAdded hne heffect
      · exact hsame heffect

/-- Every mapping still leads somewhere. -/
theorem leads_of_put (hcons : Consistent dir (w.stores s))
    (h : irs.PutsFor dir D ((w.stores s).table D))
    (hwritten : RecordWritten irs s w w₁) (hupd : Updated irs s w₁ w') (impi : String) :
    LeadsSomewhere ((w'.stores s).mappings.cells impi) := by
  have heffect := hupd.mappings impi
  rw [show (w₁.stores s).mappings = (w.stores s).mappings from hwritten.only.mappings] at heffect
  have hold := hcons.leads impi
  unfold MappingEffect at heffect
  cases hstate : irs.impis[impi]? with
  | none =>
    simp only [hstate] at heffect
    rwa [heffect]
  | some state =>
    cases state with
    | deleted => exact absurd hstate (h.notDeleted impi)
    | added =>
      simp only [hstate] at heffect
      exact leadsSomewhere_of_added heffect
    | unchanged =>
      simp only [hstate] at heffect
      split at heffect
      · exact leadsSomewhere_of_added heffect
      · rwa [heffect]

/-- A put of an IRS for a subscriber keeps the invariant. -/
theorem consistent_of_put (hcons : Consistent dir (w.stores s)) (hD : dir.defaultOf D = some D)
    (h : irs.PutsFor dir D ((w.stores s).table D)) (hwritten : RecordWritten irs s w w₁)
    (hupd : Updated irs s w₁ w') :
    Consistent dir (w'.stores s) := by
  obtain ⟨expiry, hrecord⟩ := defaultAt_of_put h hwritten hupd
  refine ⟨decodable_of_put hcons hwritten hupd, ?_, pointsAt_iff_of_put hcons hD h hwritten hupd, ?_,
    leads_of_put hcons h hwritten hupd⟩
  · intro E d hd
    by_cases hE : E = D
    · subst hE
      rw [hrecord] at hd
      cases hd
      exact ⟨hD, fun a => h.mem_assocImpu⟩
    · rw [defaultAt_of_put_ne hcons h hwritten hupd hE] at hd
      exact hcons.listed E d hd
  · intro impi E
    by_cases hE : E = D
    · subst hE
      rw [hrecord]
      simp only [Option.some.injEq, exists_eq_left']
      rw [h.mem_impis]
      refine ⟨fun hmaps hnone => ?_, maps_of_put hcons h hwritten hupd⟩
      -- An IMPI that the IRS does not track had its mapping before.
      have heffect := hupd.mappings impi
      simp only [MappingEffect, hnone,
        show (w₁.stores s).mappings = (w.stores s).mappings from hwritten.only.mappings] at heffect
      have hold : (w.stores s).Maps impi E := by
        unfold ImpuStore.Maps CasTable.value? at hmaps ⊢
        rwa [heffect] at hmaps
      obtain ⟨d, hd, himpi⟩ := (hcons.maps impi E).mp hold
      exact (h.follows hd).keeps impi himpi hnone
    · rw [defaultAt_of_put_ne hcons h hwritten hupd hE, ← hcons.maps impi E]
      exact maps_of_put_ne h hwritten hupd impi hE

/-- What the put does to the table. -/
theorem table_of_put (hcons : Consistent dir (w.stores s))
    (h : irs.PutsFor dir D ((w.stores s).table D))
    (hwritten : RecordWritten irs s w w₁) (hupd : Updated irs s w₁ w') :
    (w'.stores s).table = Function.update (w.stores s).table D (some irs.registration) := by
  funext E
  by_cases hE : E = D
  · subst hE
    obtain ⟨expiry, hrecord⟩ := defaultAt_of_put h hwritten hupd
    rw [Function.update_self, ImpuStore.table, hrecord]
    rfl
  · rw [Function.update_of_ne hE, ImpuStore.table, defaultAt_of_put_ne hcons h hwritten hupd hE]
    rfl

end Put

/-- A put of an IRS for a subscriber is an update of the table of a store. -/
theorem ImpuStore.Represents.put {dir : Directory} {irs : Irs} {D : String} {s : StoreId}
    {w : World}
    {tbl : Table} (hst : (w.stores s).Represents dir tbl) (hD : dir.defaultOf D = some D)
    (h : irs.PutsFor dir D (tbl D)) :
    ∃ ttl w', Eval serve (putIrsAction irs s) w (.ok, irs.withTtl ttl) w' ∧
      (w'.stores s).Represents dir (Function.update tbl D (some irs.registration)) ∧
      ∀ s', s' ≠ s → w'.stores s' = w.stores s' := by
  obtain ⟨hcons, rfl⟩ := hst
  obtain ⟨ttl, w₁, hfirst, hwritten⟩ := h.eval_putIrsImpu hcons hD
  have hdec : RefreshDecodable (irs.withTtl ttl) s w₁ := by
    intro _ impi _
    rw [hwritten.only.mappings]
    exact hcons.decodable.mappings impi
  obtain ⟨w', he, hupd⟩ := eval_putIrsAction hfirst hdec
  exact ⟨ttl, w', he, ⟨consistent_of_put hcons hD (h.withTtl ttl) hwritten hupd,
    irs.registration_withTtl ttl ▸ table_of_put hcons (h.withTtl ttl) hwritten hupd⟩,
    fun s' hs' => (hupd.stores s' hs').trans (hwritten.only.stores s' hs')⟩

/-! ### Deletes -/

/-- Without `D` the other default IMPUs stay in a mapping. -/
theorem maps_iff_of_mappingRemoved {st st' : ImpuStore} {impi D E : String} (hne : E ≠ D)
    (h : MappingRemoved D (st.mappings.cells impi) (st'.mappings.cells impi)) :
    st'.Maps impi E ↔ st.Maps impi E := by
  cases hcell : st.mappings.cells impi with
  | none =>
    rw [hcell] at h
    have hcell' : st'.mappings.cells impi = none := h
    simp [ImpuStore.Maps, CasTable.value?_eq_none.mpr hcell, CasTable.value?_eq_none.mpr hcell']
  | some p =>
    obtain ⟨cas, blob⟩ := p
    rw [hcell] at h
    cases blob with
    | corrupt =>
      have hcell' : st'.mappings.cells impi = some (cas, .corrupt) := h
      simp [ImpuStore.Maps, CasTable.value?_of_cells hcell, CasTable.value?_of_cells hcell']
    | decoded m =>
      rw [maps_of_cells hcell]
      simp only [MappingRemoved] at h
      split at h
      · split at h
        · rename_i hempty
          -- Only `D` was there.
          have hnot : E ∉ m.defaultImpus := by
            intro hmem
            have : E ∈ m.defaultImpus.filter (· ≠ D) := List.mem_filter.mpr ⟨hmem, by simpa using hne⟩
            rw [hempty] at this
            cases this
          simp [ImpuStore.Maps, CasTable.value?_eq_none.mpr h, hnot]
        · obtain ⟨cas', hcell'⟩ := h
          rw [maps_of_cells hcell']
          simp [hne]
      · rw [maps_of_cells h]

/-- A mapping that only leads to `D` goes with it. -/
theorem leadsSomewhere_of_removed {D : String} {v v' : Option (Nat × Blob MappingData)}
    (hold : LeadsSomewhere v) (h : MappingRemoved D v v') : LeadsSomewhere v' := by
  unfold MappingRemoved at h
  split at h
  · split at h
    · split at h
      · rintro cas m rfl
        cases h
      · rename_i hne
        obtain ⟨cas', h⟩ := h
        rintro cas m rfl
        cases h
        exact hne
    · rwa [h]
  · rwa [h]

section Delete

variable {dir : Directory} {irs irs' : Irs} {D : String} {s : StoreId} {w w₁ w' : World}

/-- The keys of the subscriber are gone, and the others are as they were. -/
def GoneOrSame (D : String) (st st' : ImpuStore) : Prop :=
  ∀ k, ((k = D ∨ st.PointsAt k D) ∧ st'.impus.cells k = none) ∨
    (k ≠ D ∧ ¬ st.PointsAt k D ∧ st'.impus.cells k = st.impus.cells k)

theorem cells_of_delete (hdeleted : DeletedFrom D (w.stores s) (w'.stores s))
    (hdel : RecordDeleted irs s w w₁) (hirs : irs.defaultImpu = D) (hD : irs'.defaultImpu = D)
    (hupd : Updated irs'.deleteAssocImpus.deleteImpis s w₁ w') :
    GoneOrSame D (w.stores s) (w'.stores s) := by
  intro k
  by_cases hk : k = D
  · exact .inl ⟨.inl hk, hk ▸ hdeleted.record⟩
  by_cases hp : (w.stores s).PointsAt k D
  · refine .inl ⟨.inr hp, ?_⟩
    have hsame := hdel.others k (by rwa [hirs])
    obtain ⟨expiry, hvalue⟩ := hp
    obtain ⟨cas, hcell⟩ := CasTable.value?_eq_some.mp hvalue
    rw [hcell] at hsame
    rcases hupd.removed hD k with ⟨hremoved, -⟩ | ⟨hkept, -⟩
    · rw [hsame] at hremoved
      simpa [AssociatedRemoved] using hremoved
    · rw [hsame] at hkept
      exact absurd ⟨expiry, CasTable.value?_of_cells hkept⟩ (hdeleted.associated k)
  · exact .inr ⟨hk, hp, hdeleted.impus k hk hp⟩

/-- The records of the other subscribers. -/
theorem defaultAt_of_delete_ne (hcells : GoneOrSame D (w.stores s) (w'.stores s)) {E : String}
    (hne : E ≠ D) :
    (w'.stores s).defaultAt E = (w.stores s).defaultAt E := by
  rcases hcells E with ⟨rfl | hpoints, hnone⟩ | ⟨-, -, hsame⟩
  · exact absurd rfl hne
  · rw [not_defaultAt_of_pointsAt hpoints]
    simp [ImpuStore.defaultAt, CasTable.value?_eq_none.mpr hnone]
  · exact ImpuStore.defaultAt_congr hsame

/-- A delete leaves nothing that does not decode. -/
theorem decodable_of_delete (hcons : Consistent dir (w.stores s))
    (hdeleted : DeletedFrom D (w.stores s) (w'.stores s))
    (hcells : GoneOrSame D (w.stores s) (w'.stores s)) : (w'.stores s).Decodable where
  impus key hcorrupt := by
    obtain ⟨cas, hcell⟩ := CasTable.value?_eq_some.mp hcorrupt
    rcases hcells key with ⟨-, hnone⟩ | ⟨-, -, hsame⟩
    · rw [hnone] at hcell
      cases hcell
    · rw [hsame] at hcell
      exact hcons.decodable.impus key (CasTable.value?_of_cells hcell)
  mappings key hcorrupt := by
    obtain ⟨cas, hcell⟩ := CasTable.value?_eq_some.mp hcorrupt
    have hremoved := hdeleted.mappings key
    have hnot := hcons.decodable.mappings key
    cases hold : (w.stores s).mappings.cells key with
    | none =>
      rw [hold] at hremoved
      rw [show _ = _ from hremoved] at hcell
      cases hcell
    | some p =>
      obtain ⟨cas', blob⟩ := p
      rw [hold] at hremoved
      cases blob with
      | corrupt => exact hnot (CasTable.value?_of_cells hold)
      | decoded m =>
        simp only [MappingRemoved] at hremoved
        split at hremoved
        · split at hremoved
          · rw [hremoved] at hcell
            cases hcell
          · obtain ⟨cas'', hcell'⟩ := hremoved
            rw [hcell'] at hcell
            cases hcell
        · rw [hremoved] at hcell
          cases hcell

/-- The aliases of the other subscribers after the delete. -/
theorem pointsAt_of_delete_ne (hcons : Consistent dir (w.stores s)) (hdir : dir.defaultOf D = some D)
    (hcells : GoneOrSame D (w.stores s) (w'.stores s)) (a : String) {E : String} (hne : E ≠ D) :
    (w'.stores s).PointsAt a E ↔ (w.stores s).PointsAt a E := by
  rcases hcells a with ⟨hown, hnone⟩ | ⟨-, -, hsame⟩
  · have hnot : ¬ (w'.stores s).PointsAt a E := by
      rintro ⟨expiry, hvalue⟩
      rw [CasTable.value?_eq_none.mpr hnone] at hvalue
      cases hvalue
    refine ⟨fun hpoints => absurd hpoints hnot, fun hpoints => ?_⟩
    -- An identity of `D` does not point at `E`.
    have hE := ((hcons.pointsAt a E).mp hpoints).2.1
    rcases hown with rfl | hown
    · rw [hdir] at hE
      cases hE
      exact absurd rfl hne
    · rw [((hcons.pointsAt a D).mp hown).2.1] at hE
      cases hE
      exact absurd rfl hne
  · unfold ImpuStore.PointsAt CasTable.value?
    rw [hsame]

/-- A delete of a subscriber keeps the invariant. -/
theorem consistent_of_delete (hcons : Consistent dir (w.stores s)) (hdir : dir.defaultOf D = some D)
    (hdeleted : DeletedFrom D (w.stores s) (w'.stores s))
    (hcells : GoneOrSame D (w.stores s) (w'.stores s)) : Consistent dir (w'.stores s) := by
  have hgone : (w'.stores s).defaultAt D = none := by
    simp [ImpuStore.defaultAt, CasTable.value?_eq_none.mpr hdeleted.record]
  refine ⟨decodable_of_delete hcons hdeleted hcells, ?_, ?_, ?_,
    fun impi => leadsSomewhere_of_removed (hcons.leads impi) (hdeleted.mappings impi)⟩
  · intro E d hd
    by_cases hE : E = D
    · rw [hE, hgone] at hd
      cases hd
    · rw [defaultAt_of_delete_ne hcells hE] at hd
      exact hcons.listed E d hd
  · intro a E
    by_cases hE : E = D
    · subst hE
      simp [hdeleted.associated a, hgone]
    · rw [pointsAt_of_delete_ne hcons hdir hcells a hE, defaultAt_of_delete_ne hcells hE]
      exact hcons.pointsAt a E
  · intro impi E
    by_cases hE : E = D
    · subst hE
      simp [hdeleted.mapped impi, hgone]
    · rw [defaultAt_of_delete_ne hcells hE, ← hcons.maps impi E]
      exact maps_iff_of_mappingRemoved hE (hdeleted.mappings impi)

end Delete

/-- The table without the entry of one subscriber. -/
theorem ImpuStore.table_of_deleted {st st' : ImpuStore} {D : String} (hgone : st'.defaultAt D = none)
    (hothers : ∀ E, E ≠ D → st'.defaultAt E = st.defaultAt E) :
    st'.table = Function.update st.table D none := by
  funext E
  by_cases hE : E = D
  · rw [hE, Function.update_self, ImpuStore.table, hgone]
    rfl
  · rw [Function.update_of_ne hE, ImpuStore.table, hothers E hE]
    rfl

@[simp] theorem Irs.merged_existing (irs : Irs) (s : StoreId) (cell : Option (Nat × Blob ImpuData))
    (now : Int) : (irs.merged s cell now).existing = irs.existing := by
  unfold merged
  split <;> rfl

/-- The IRS tracks whatever there may be of the subscriber `D` with the registration `r?`. -/
structure Irs.Covers (irs : Irs) (dir : Directory) (D : String)
    (r? : Option Registration) : Prop where
  defaultImpu : irs.defaultImpu = D
  associated : ∀ k, k ≠ D → dir.defaultOf k = some D → irs.associatedImpus[k]? ≠ none
  impis : ∀ r, r? = some r → ∀ impi ∈ r.impis, irs.impis[impi]? ≠ none

theorem Irs.Covers.tracks {irs : Irs} {dir : Directory} {D : String} {st : ImpuStore}
    (hcons : Consistent dir st) (h : irs.Covers dir D (st.table D)) : irs.Tracks D st where
  associated d hd x hx := by
    obtain ⟨hne, hdir⟩ := ((hcons.listed D d hd).2 x).mp hx
    exact h.associated x hne hdir
  impis d hd := h.impis d.registration (by rw [ImpuStore.table, hd, Option.map_some])

theorem Irs.Covers.extend {irs irs' : Irs} {dir : Directory} {D : String} {r? : Option Registration}
    (h : irs.Covers dir D r?) (he : irs.Extends irs')
    (hdefault : irs'.defaultImpu = irs.defaultImpu) :
    irs'.Covers dir D r? where
  defaultImpu := hdefault.trans h.defaultImpu
  associated k hne hdir := he.associated k (h.associated k hne hdir)
  impis r hr impi himpi := he.impis impi (h.impis r hr impi himpi)

/-- A delete of an IRS that covers a subscriber takes the subscriber out of a store, and leaves the
records of the others. -/
theorem ImpuStore.Represents.delete {dir : Directory} {irs : Irs} {D : String} {s : StoreId}
    {w : World} {tbl : Table} (hst : (w.stores s).Represents dir tbl)
    (hdir : dir.defaultOf D = some D) (h : irs.Covers dir D (tbl D)) :
    ∃ irs' w', Eval serve (deleteIrsAction irs s) w (.ok, irs') w' ∧
      (w'.stores s).Represents dir (Function.update tbl D none) ∧
      (∀ s', s' ≠ s → w'.stores s' = w.stores s') ∧ irs.Extends irs' ∧
      irs'.defaultImpu = irs.defaultImpu ∧ irs'.existing = irs.existing := by
  obtain ⟨hcons, rfl⟩ := hst
  obtain ⟨irs', w₁, w', he, hdel, hirs', hupd⟩ := eval_deleteIrsAction irs s w
  obtain rfl := h.defaultImpu
  have htracks := h.tracks hcons
  have hkey : irs'.defaultImpu = irs.defaultImpu ∧ irs'.existing = irs.existing ∧
      irs.Extends irs' := by
    rcases hirs' with ⟨-, rfl⟩ | ⟨-, now, rfl⟩
    · exact ⟨rfl, rfl, fun _ hx => hx, fun _ hx => hx⟩
    · obtain ⟨hext, -⟩ := irs.markAsRefreshed.merged_tracks s (w.stores s) now rfl
      exact ⟨Irs.merged_defaultImpu _ _ _ _, Irs.merged_existing _ _ _ _, hext.associated,
        hext.impis⟩
  obtain ⟨hdefault, hexisting, hext⟩ := hkey
  have hdeleted :=
    deletedFrom_of_updated (hcons.twoWay hdir) hdel hdefault (htracks.extend hext) hupd
  have hcells := cells_of_delete hdeleted hdel rfl hdefault hupd
  refine ⟨_, w', he, ⟨consistent_of_delete hcons hdir hdeleted hcells, ?_⟩,
    fun s' hs' => (hupd.stores s' hs').trans (hdel.only.stores s' hs'),
    ⟨fun x hx => ?_, fun x hx => ?_⟩,
    hdefault, hexisting⟩
  · refine ImpuStore.table_of_deleted ?_ fun E hE => defaultAt_of_delete_ne hcells hE
    rw [ImpuStore.defaultAt, CasTable.value?_eq_none.mpr hdeleted.record]
  · show irs'.associatedImpus.deleteTracked[x]? ≠ none
    rw [Data.getElem?_deleteTracked]
    simpa using hext.associated x hx
  · show irs'.impis.deleteTracked[x]? ≠ none
    rw [Data.getElem?_deleteTracked]
    simpa using hext.impis x hx

end Homestead

import Homestead.Proofs.Concurrent
import Homestead.Proofs.Setters

/-!
# `Homestead.Proofs.NoLostUpdate`: concurrent updates of one IRS

Any number of clients look up the IRS with the default IMPU `D`, call any setters on it and
put it, interleaved call by call. `commits` lists the clients in the order in which their
compare-and-set writes of the record at `D` succeeded.

`Overwrites` is what one such write does to the record: the fields that the client set take
its values, the others stay, and no IMPI is lost. It is the guarantee of every client
(`updating`), and the record after a run follows from the list of commits.

* `safe_client_updating` is the rely-guarantee proof of one client.
* `no_lost_update` is the result for every schedule.

The record must not list `D` among its own associated IMPUs: a refreshed put then writes an
associated record over it, and `update_lost_by_self_listing` is such a run.
-/

set_option autoImplicit false

namespace Homestead

open CacheProg

/-- The charging addresses of a stored record. -/
def DefaultImpuData.chargingAddresses (d : DefaultImpuData) : ChargingAddresses :=
  { ccfs := d.ccfs, ecfs := d.ecfs }

/-- Whether a state is stored as `REGISTERED`. -/
def RegistrationState.isRegistered (state : RegistrationState) : Bool := decide (state = .registered)

/-- The record `d'` that a client with these setters writes over the record `d`. -/
structure Overwrites (D : String) (setters : List Setter) (d d' : DefaultImpuData) : Prop where
  selfFree : D ∉ d'.assocImpu
  impis : ∀ impi ∈ d.impis, impi ∈ d'.impis
  added : ∀ impi ∈ addedImpis setters, impi ∈ d'.impis
  registrationState : d'.registrationState
    = ((lastRegState setters).map RegistrationState.isRegistered).getD d.registrationState
  serviceProfile : d'.serviceProfile = (lastImsSubXml setters).getD d.serviceProfile
  chargingAddresses : d'.chargingAddresses
    = (lastChargingAddresses setters).getD d.chargingAddresses

section

variable (s : StoreId) (D : String)

/-- The record at `D` stays, with the IMPIs it lists. -/
def RecordGrows (w w' : World) : Prop :=
  ∀ d, (w.stores s).defaultAt D = some d → D ∉ d.assocImpu →
    ∃ d', (w'.stores s).defaultAt D = some d' ∧ D ∉ d'.assocImpu ∧ ∀ impi ∈ d.impis, impi ∈ d'.impis

/-- Every mapping of the store decodes. -/
def MappingsDecode (w : World) : Prop :=
  ∀ impi, (w.stores s).mappings.value? impi ≠ some .corrupt

/-- The mappings with `D` stay. -/
structure MapsKept (w w' : World) : Prop where
  maps : ∀ impi, (w.stores s).Maps impi D → (w'.stores s).Maps impi D
  decode : MappingsDecode s w → MappingsDecode s w'

/-- The contract of a client with these setters. -/
def updating (setters : List Setter) : Contract Call Call.Resp World where
  rely w w' := CasTable.Later (w.stores s).impus (w'.stores s).impus ∧
    CasTable.Later (w.stores s).mappings (w'.stores s).mappings ∧ RecordGrows s D w w' ∧
    MapsKept s D w w'
  assume _ _ _ := True
  guar _ w o :=
    (o.impuKey = some (s, D) → ∃ r, o = .setImpu s (.default r) ∧
      ((w.stores s).impus.version D = r.cas →
        ∃ d, (w.stores s).defaultAt D = some d ∧ Overwrites D setters d r.toData)) ∧
    MapsKept s D w (serve o w).2
  rely_refl _ := ⟨.refl _, .refl _, fun d hd hself => ⟨d, hd, hself, fun _ h => h⟩,
    fun _ h => h, id⟩
  rely_trans h₁ h₂ := by
    obtain ⟨hi₁, hm₁, hr₁, hk₁⟩ := h₁
    obtain ⟨hi₂, hm₂, hr₂, hk₂⟩ := h₂
    refine ⟨hi₁.trans hi₂, hm₁.trans hm₂, fun d hd hself => ?_,
      fun impi h => hk₂.maps impi (hk₁.maps impi h), fun h => hk₂.decode (hk₁.decode h)⟩
    obtain ⟨d₁, hd₁, hself₁, himpis₁⟩ := hr₁ d hd hself
    obtain ⟨d₂, hd₂, hself₂, himpis₂⟩ := hr₂ d₁ hd₁ hself₁
    exact ⟨d₂, hd₂, hself₂, fun impi h => himpis₂ impi (himpis₁ impi h)⟩

end

variable {s : StoreId} {D : String} {setters : List Setter}

/-! ### What one call keeps -/

theorem mapsKept_of_mappingKey {o : Call} (w : World)
    (h : ∀ impi, o.mappingKey ≠ some (s, impi)) : MapsKept s D w (serve o w).2 := by
  have hvalue : ∀ impi, ((serve o w).2.stores s).mappings.value? impi
      = (w.stores s).mappings.value? impi := by
    intro impi
    unfold CasTable.value?
    rw [serve_mappings_cells w (h impi)]
  refine ⟨?_, fun hdec impi => ?_⟩
  · rintro impi ⟨m, hm, hmem⟩
    exact ⟨m, (hvalue impi).trans hm, hmem⟩
  · rw [hvalue]
    exact hdec impi

/-- A write of a mapping with `D` in it. -/
theorem mapsKept_put (w : World) (m : ImpiMapping) (hD : D ∈ m.defaultImpus) :
    MapsKept s D w (w.setMappings s ((w.stores s).mappings.put m.impi (.decoded m.toData))) ∧
      ((w.setMappings s ((w.stores s).mappings.put m.impi (.decoded m.toData))).stores s).Maps
        m.impi D := by
  have hmaps : ∀ impi, ((w.setMappings s ((w.stores s).mappings.put m.impi
      (.decoded m.toData))).stores s).mappings.value? impi
      = if impi = m.impi then some (.decoded m.toData) else (w.stores s).mappings.value? impi := by
    intro impi
    rw [World.setMappings_stores_self, CasTable.put_value?]
  refine ⟨⟨?_, fun hdec impi => ?_⟩, m.toData, (hmaps m.impi).trans (if_pos rfl), hD⟩
  · rintro impi ⟨m', hm', hmem⟩
    by_cases himpi : impi = m.impi
    · exact ⟨m.toData, (hmaps impi).trans (if_pos himpi), hD⟩
    · exact ⟨m', (hmaps impi).trans ((if_neg himpi).trans hm'), hmem⟩
  · rw [hmaps]
    split
    · nofun
    · exact hdec impi

theorem readsFree_updating : ReadsFree (updating s D setters) := by
  intro hs w o ho
  refine ⟨fun hkey => ?_, mapsKept_of_mappingKey w fun impi => ?_⟩
  · rw [ho.keys.1] at hkey
    cases hkey
  · rw [ho.keys.2]
    nofun

theorem relyLater_updating : RelyLater (updating s D setters) s :=
  ⟨fun h => h.1, fun h => h.2.1⟩

/-- The record at `D` after a guaranteed call. -/
theorem recordGrows_of_guar {hs : History} {w : World} {o : Call}
    (h : (updating s D setters).guar hs w o) : RecordGrows s D w (serve o w).2 := by
  intro d hd hself
  by_cases hkey : o.impuKey = some (s, D)
  · obtain ⟨r, rfl, hwrite⟩ := h.1 hkey
    have hD : r.impu = D := by simpa [Call.impuKey, Impu.impu] using hkey
    rcases serve_setImpu_cases w s (.default r) with ⟨hv, -, hworld⟩ | ⟨-, -, hworld⟩
    · have hv' : (w.stores s).impus.version D = r.cas := by
        rw [← hD]
        exact hv
      obtain ⟨d₁, hd₁, hover⟩ := hwrite hv'
      obtain rfl : d = d₁ := Option.some.inj (hd.symm.trans hd₁)
      rw [hworld, show (Impu.default r).impu = D from hD]
      exact ⟨_, defaultAt_setImpus_put w s D _, hover.selfFree, hover.impis⟩
    · rw [hworld]
      exact ⟨d, hd, hself, fun _ h => h⟩
  · rw [ImpuStore.defaultAt_congr (serve_impus_cells w hkey)]
    exact ⟨d, hd, hself, fun _ h => h⟩

/-- A guaranteed call of one client is something that the others rely on. -/
theorem rely_of_guar_updating (setters' : List Setter) {hs : History} {w : World} {o : Call}
    (h : (updating s D setters).guar hs w o) : (updating s D setters').rely w (serve o w).2 :=
  ⟨serve_later_impus o w s, serve_later_mappings o w s, recordGrows_of_guar h, h.2⟩

/-! ### One client -/

/-- What a client keeps of its IRS from pass to pass. -/
structure Updating (D : String) (setters : List Setter) (irs : Irs) : Prop extends
    IsFor D irs where
  registrationStateSet : irs.registrationStateSet = (lastRegState setters).isSome
  registrationState : ∀ state, lastRegState setters = some state → irs.registrationState = state
  imsSubXmlSet : irs.imsSubXmlSet = (lastImsSubXml setters).isSome
  imsSubXml : ∀ xml, lastImsSubXml setters = some xml → irs.imsSubXml = xml
  chargingAddressesSet : irs.chargingAddressesSet = (lastChargingAddresses setters).isSome
  chargingAddresses : ∀ addresses, lastChargingAddresses setters = some addresses →
    irs.chargingAddresses = addresses
  added : ∀ impi ∈ addedImpis setters, irs.impis[impi]? = some .added
  kept : ∀ impi : String, irs.impis[impi]? ≠ some .deleted

/-- The fields that the user did not set are those of the record `d`, and the IRS lists all
IMPIs of `d`. -/
structure Current (irs : Irs) (d : DefaultImpuData) : Prop where
  registrationState : irs.registrationStateSet = false →
    irs.registrationState.isRegistered = d.registrationState
  imsSubXml : irs.imsSubXmlSet = false → irs.imsSubXml = d.serviceProfile
  chargingAddresses : irs.chargingAddressesSet = false →
    irs.chargingAddresses = d.chargingAddresses
  impis : ∀ impi ∈ d.impis, impi ∈ irs.getAssociatedImpis

/-- The unchanged IMPIs of the IRS are in the record at `D`, which does not list `D`. -/
def TracksRecord (s : StoreId) (D : String) (irs : Irs) (w : World) : Prop :=
  ∃ d, (w.stores s).defaultAt D = some d ∧ D ∉ d.assocImpu ∧
    ∀ impi : String, irs.impis[impi]? = some .unchanged → impi ∈ d.impis

theorem TracksRecord.grows {irs : Irs} {w w' : World} (h : TracksRecord s D irs w)
    (hg : RecordGrows s D w w') : TracksRecord s D irs w' := by
  obtain ⟨d, hd, hself, htracks⟩ := h
  obtain ⟨d', hd', hself', himpis⟩ := hg d hd hself
  exact ⟨d', hd', hself', fun impi h => himpis impi (htracks impi h)⟩

/-- A field of the record: the value that the client set, or the one it has read. -/
theorem getD_of_set {α : Type} {last : Option α} {value old : α} {b : Bool}
    (hset : b = last.isSome) (hvalue : ∀ v, last = some v → value = v)
    (hold : b = false → value = old) : value = last.getD old := by
  cases hlast : last with
  | none => exact hold (by rw [hset, hlast]; rfl)
  | some v => exact hvalue v hlast

/-- The record that a current IRS writes. -/
theorem Updating.overwrites {irs : Irs} {d : DefaultImpuData} (h : Updating D setters irs)
    (hcur : Current irs d) (expiry : Int) : Overwrites D setters d (irs.recordData expiry) where
  selfFree := h.notMem
  impis := hcur.impis
  added impi himpi := Data.mem_present.mpr (.inr (h.added impi himpi))
  registrationState := by
    refine getD_of_set (b := irs.registrationStateSet) ?_ ?_ hcur.registrationState
    · rw [h.registrationStateSet, Option.isSome_map]
    · rintro v hv
      obtain ⟨state, hstate, rfl⟩ := Option.map_eq_some_iff.mp hv
      show decide (irs.registrationState = .registered) = _
      rw [h.registrationState state hstate]
      rfl
  serviceProfile := getD_of_set h.imsSubXmlSet h.imsSubXml hcur.imsSubXml
  chargingAddresses :=
    getD_of_set h.chargingAddressesSet h.chargingAddresses hcur.chargingAddresses

/-- The merge of one field keeps a value that was set. -/
theorem merged_of_set {α : Type} {last : Option α} {value old : α} {b : Bool}
    (hset : b = last.isSome) (hvalue : ∀ v, last = some v → value = v) {v : α}
    (hv : last = some v) : (if b then value else old) = v := by
  rw [hset, hv]
  exact hvalue v hv

/-- The IMPIs of an IRS after the merge with a stored record. -/
theorem getElem?_merged_impis (irs : Irs) (d : DefaultImpuData) (D : String) (cas : Nat) (now : Int)
    (impi : String) : (irs.updateFromImpuFromStore (d.fromData D cas s) now).impis[impi]?
      = match irs.impis[impi]? with
        | none => if impi ∈ d.impis then some .unchanged else none
        | some .unchanged => if impi ∈ d.impis then some .unchanged else some .deleted
        | some status => some status :=
  Data.getElem?_mergeDataSets _ _ _

/-- The merge with the stored record makes the IRS current. -/
theorem Updating.merge {irs : Irs} {d : DefaultImpuData} (h : Updating D setters irs)
    (hself : D ∉ d.assocImpu)
    (htracks : ∀ impi : String, irs.impis[impi]? = some .unchanged → impi ∈ d.impis)
    (cas : Nat) (now : Int) :
    let irs' := irs.updateFromImpuFromStore (d.fromData D cas s) now
    Updating D setters irs' ∧ Current irs' d ∧
      ∀ impi : String, irs'.impis[impi]? = some .unchanged → impi ∈ d.impis := by
  intro irs'
  have himpis := getElem?_merged_impis (s := s) irs d D cas now
  -- What a setter has set stays, and the rest is taken from the record.
  refine ⟨⟨h.toIsFor.merge now hself, h.registrationStateSet, ?_, h.imsSubXmlSet, ?_,
    h.chargingAddressesSet, ?_, ?_, ?_⟩, ⟨?_, ?_, ?_, ?_⟩, ?_⟩
  · exact fun state => merged_of_set h.registrationStateSet h.registrationState
  · exact fun xml => merged_of_set h.imsSubXmlSet h.imsSubXml
  · exact fun addresses => merged_of_set h.chargingAddressesSet h.chargingAddresses
  · intro impi himpi
    rw [himpis, h.added impi himpi]
  · -- No IMPI is deleted: an unchanged one is still in the record.
    intro impi hdel
    rw [himpis] at hdel
    cases hst : irs.impis[impi]? with
    | none =>
      rw [hst] at hdel
      dsimp only at hdel
      split at hdel <;> cases hdel
    | some st =>
      rw [hst] at hdel
      cases st with
      | added => cases hdel
      | deleted => exact h.kept impi hst
      | unchanged =>
        dsimp only at hdel
        rw [if_pos (htracks impi hst)] at hdel
        cases hdel
  · intro hset
    have hset : irs.registrationStateSet = false := hset
    show RegistrationState.isRegistered (if irs.registrationStateSet then _
      else if d.registrationState then _ else _) = _
    rw [hset]
    cases d.registrationState <;> rfl
  · intro hset
    have hset : irs.imsSubXmlSet = false := hset
    show (if irs.imsSubXmlSet then _ else d.serviceProfile) = _
    rw [hset]
    rfl
  · intro hset
    have hset : irs.chargingAddressesSet = false := hset
    show (if irs.chargingAddressesSet then _ else d.chargingAddresses) = _
    rw [hset]
    rfl
  · -- Every stored IMPI is still one of the IRS.
    intro impi himpi
    refine Data.mem_present.mpr ?_
    show irs'.impis[impi]? = _ ∨ irs'.impis[impi]? = _
    rw [himpis]
    cases hst : irs.impis[impi]? with
    | none => exact .inl (if_pos himpi)
    | some st =>
      cases st with
      | added => exact .inr rfl
      | deleted => exact absurd hst (h.kept impi)
      | unchanged => exact .inl (if_pos himpi)
  · intro impi hun
    rw [himpis] at hun
    by_contra hmem
    cases hst : irs.impis[impi]? with
    | none => simp [hst, hmem] at hun
    | some st => cases st <;> simp [hst, hmem] at hun

/-- The record at `D` lists the IMPIs that the client added. -/
def ListsAdded (s : StoreId) (D : String) (setters : List Setter) (w : World) : Prop :=
  ∃ d, (w.stores s).defaultAt D = some d ∧ D ∉ d.assocImpu ∧
    ∀ impi ∈ addedImpis setters, impi ∈ d.impis

theorem ListsAdded.grows {w w' : World} (h : ListsAdded s D setters w)
    (hg : RecordGrows s D w w') : ListsAdded s D setters w' := by
  obtain ⟨d, hd, hself, hlists⟩ := h
  obtain ⟨d', hd', hself', himpis⟩ := hg d hd hself
  exact ⟨d', hd', hself', fun impi h => himpis impi (hlists impi h)⟩

/-- What a client knows while it updates the record at `D`. -/
structure Ready (s : StoreId) (D : String) (setters : List Setter) (irs : Irs) (w : World) :
    Prop where
  fields : Updating D setters irs
  tracks : TracksRecord s D irs w
  decode : MappingsDecode s w

theorem Ready.rely {irs : Irs} {w w' : World} (h : Ready s D setters irs w)
    (hr : (updating s D setters).rely w w') : Ready s D setters irs w' :=
  ⟨h.fields, h.tracks.grows hr.2.2.1, hr.2.2.2.decode h.decode⟩

/-- A read of the key `D` finds a default IMPU. -/
theorem Ready.getImpu {irs : Irs} {w : World} (h : Ready s D setters irs w) :
    ∃ d c, (w.stores s).getImpu s irs.defaultImpu
      = (.ok, some ((ImpuData.default d).fromData irs.defaultImpu c s)) := by
  obtain ⟨d, hd, -⟩ := h.tracks
  obtain ⟨c, hcell⟩ := CasTable.value?_eq_some.mp (ImpuStore.defaultAt_eq_some.mp hd)
  rw [h.fields.defaultImpu]
  exact ⟨d, c, ImpuStore.getImpu_of_decoded hcell⟩

/-- A read is a call that the client itself can rely on. -/
theorem rely_of_isRead {w : World} {o : Call} (ho : o.IsRead) :
    (updating s D setters).rely w (serve o w).2 :=
  rely_of_guar_updating setters
    (show (updating s D setters).guar [] w o from readsFree_updating [] w o ho)

theorem updateRule_updating : UpdateRule (updating s D setters) s
    (fun irs _ w => Ready s D setters irs w)
    (fun irs c _ w => ∃ d, CasTable.Seen (w.stores s).impus D c (.decoded (.default d)) ∧
      Current irs d)
    (fun irs _ w => Ready s D setters irs w ∧ ListsAdded s D setters w) False where
  keep irs :=
    { rely := fun h hr => h.rely hr
      time := fun h => h.rely (rely_of_isRead (o := .time) trivial) }
  fresh irs c :=
    { rely := fun ⟨d, hseen, hcur⟩ hr => ⟨d, hseen.later hr.1, hcur⟩
      time := fun h => h }
  done h hr := ⟨h.1.rely hr, h.2.grows hr.2.2.1⟩
  absent := by
    rintro irs hs w o rfl h _ _ hnone
    obtain ⟨d, c, hcell⟩ := h.getImpu
    rw [hcell] at hnone
    cases hnone
  merge := by
    rintro irs hs w d' o rfl h _ _ hd' now
    obtain ⟨d, hd, hself, htracks⟩ := h.tracks
    obtain ⟨c, hcell⟩ := CasTable.value?_eq_some.mp (ImpuStore.defaultAt_eq_some.mp hd)
    rw [h.fields.defaultImpu, ImpuStore.getImpu_of_decoded hcell] at hd'
    cases hd'
    obtain ⟨hup, hcur, htracks'⟩ := h.fields.merge hself htracks c now
    exact ⟨⟨hup, ⟨d, hd, hself, htracks'⟩, h.decode⟩, d, .of_cells hcell, hcur⟩
  replace := by
    rintro irs hs w a o rfl h _ _ ha _
    obtain ⟨d, c, hcell⟩ := h.getImpu
    rw [hcell] at ha
    cases ha
  blocked := by
    intro irs hs w a h ha _
    obtain ⟨d, c, hcell⟩ := h.getImpu
    rw [hcell] at ha
    cases ha
  write := by
    rintro irs hs w c store now o rfl h ⟨d, hseen, hcur⟩ _
    have hD : irs.defaultImpu = D := h.fields.defaultImpu
    have hover := h.fields.overwrites hcur (toInt32 (irs.ttl + toInt32 now))
    have hguar : (updating s D setters).guar hs w
        (.setImpu s (.default (irs.createImpu c store now))) := by
      refine ⟨fun _ => ⟨_, rfl, fun hv => ⟨d, ?_, hover⟩⟩, mapsKept_of_mappingKey w nofun⟩
      exact ImpuStore.defaultAt_eq_some.mpr (CasTable.value?_of_cells (hseen.cells_eq hv))
    have hrely := rely_of_guar_updating setters hguar
    refine ⟨hguar, fun hv => ⟨h.rely hrely, ?_⟩, fun _ => h⟩
    -- With the version it has seen, the set writes over the record the IRS was merged with.
    rcases serve_setImpu_cases w s (.default (irs.createImpu c store now)) with
      ⟨-, -, hworld⟩ | ⟨hv', -, -⟩
    · rw [hworld, show (Impu.default (irs.createImpu c store now)).impu = D from hD]
      exact ⟨_, defaultAt_setImpus_put w s D _, hover.selfFree, hover.added⟩
    · exact absurd hv hv'

/-- What the later operations of a put keep: the IMPIs `done` have their mappings. -/
structure Settled (s : StoreId) (D : String) (setters : List Setter) (irs : Irs)
    (done : List String) (w : World) : Prop where
  ready : Ready s D setters irs w
  lists : ListsAdded s D setters w
  maps : ∀ impi ∈ done, (w.stores s).Maps impi D

theorem Settled.rely {irs : Irs} {done : List String} {w w' : World}
    (h : Settled s D setters irs done w) (hr : (updating s D setters).rely w w') :
    Settled s D setters irs done w' :=
  ⟨h.ready.rely hr, h.lists.grows hr.2.2.1, fun impi himpi => hr.2.2.2.maps impi (h.maps impi himpi)⟩

theorem stable_settled (irs : Irs) (done : List String) :
    Stable (updating s D setters) fun _ w => Settled s D setters irs done w where
  rely h hr := h.rely hr
  read h ho := h.rely (rely_of_isRead ho)

theorem associatedRule_updating {irs : Irs} (huntracked : irs.associatedImpus[D]? = none) :
    AssociatedRule (updating s D setters) s irs fun _ _ w => Settled s D setters irs [] w where
  stable _ := stable_settled irs []
  write := by
    rintro done hs w a o rfl _ hstate h _
    have hguar : (updating s D setters).guar hs w (.setImpuWithoutCas s (.associated a)) := by
      refine ⟨fun hkey => ?_, mapsKept_of_mappingKey w (by simp [Call.mappingKey])⟩
      obtain rfl : a.impu = D := by simpa [Call.impuKey, Impu.impu] using hkey
      rw [huntracked] at hstate
      simp at hstate
    exact ⟨hguar, h.rely (rely_of_guar_updating setters hguar)⟩
  remove := by
    rintro hs w a o rfl _ hstate _ h _
    have hguar : (updating s D setters).guar hs w (.deleteImpu s (.associated a)) := by
      refine ⟨fun hkey => ?_, mapsKept_of_mappingKey w (by simp [Call.mappingKey])⟩
      obtain rfl : a.impu = D := by simpa [Call.impuKey, Impu.impu] using hkey
      rw [huntracked] at hstate
      cases hstate
    exact ⟨hguar, h.rely (rely_of_guar_updating setters hguar)⟩

theorem mappingRule_updating {irs : Irs} (hD : irs.defaultImpu = D)
    (hkept : ∀ impi : String, irs.impis[impi]? ≠ some .deleted) :
    MappingRule (updating s D setters) s irs fun done _ w => Settled s D setters irs done w where
  stable done := stable_settled irs done
  store := by
    rintro done hs w m o rfl _ ⟨hmem, -⟩ h _
    rw [hD] at hmem
    have hput := mapsKept_put (s := s) w m hmem
    rcases serve_setImpiMapping_cases w s m with ⟨hv, -, hworld⟩ | ⟨hv, -, hworld⟩
    · have hguar : (updating s D setters).guar hs w (.setImpiMapping s m) :=
        ⟨nofun, by rw [hworld]; exact hput.1⟩
      have h' := h.rely (rely_of_guar_updating setters hguar)
      refine ⟨hguar, fun _ => ⟨h'.ready, h'.lists, fun impi himpi => ?_⟩, fun hne => absurd hv hne⟩
      rcases List.mem_cons.mp himpi with rfl | himpi
      · rw [hworld]
        exact hput.2
      · exact h'.maps impi himpi
    · refine ⟨⟨nofun, ?_⟩, fun heq => absurd heq hv, fun _ => h⟩
      rw [hworld]
      exact ⟨fun _ h => h, id⟩
  present := by
    rintro done hs w impi m o rfl _ hm hmem h
    obtain ⟨cas, data, hcell, rfl⟩ := ImpuStore.cells_of_getImpiMapping hm
    rw [hD] at hmem
    refine ⟨h.ready, h.lists, fun i hi => ?_⟩
    rcases List.mem_cons.mp hi with rfl | hi
    · exact ⟨data, CasTable.value?_of_cells hcell, hmem⟩
    · exact h.maps i hi
  error := by
    -- A mapping that does not decode is excluded.
    rintro done hs w impi o rfl _ herr h
    exfalso
    cases hcell : (w.stores s).mappings.cells impi with
    | none =>
      rw [ImpuStore.getImpiMapping_of_none hcell] at herr
      cases herr
    | some p =>
      obtain ⟨cas, blob⟩ := p
      cases blob with
      | corrupt => exact h.ready.decode impi (CasTable.value?_of_cells hcell)
      | decoded data =>
        rw [ImpuStore.getImpiMapping_of_decoded hcell] at herr
        cases herr
  remove _ hdel := absurd hdel (hkept _)
  delete _ hdel := absurd hdel (hkept _)

/-- The put of an IRS for `D` that was read from the store. -/
theorem safe_put_updating {irs : Irs} {hs : History} {w : World} (hex : irs.existing = true)
    (h : Ready s D setters irs w)
    (hcur : ∃ d, CasTable.Seen (w.stores s).impus D irs.cas (.decoded (.default d)) ∧
      Current irs d) :
    Safe serve (updating s D setters) (fun r _ w' => r.1 = .ok ∧ ListsAdded s D setters w' ∧
      ∀ impi ∈ addedImpis setters, (w'.stores s).Maps impi D) (putIrsAction irs s) hs w := by
  let R : Irs → History → World → Prop := fun irs _ w =>
    Ready s D setters irs w ∧ ListsAdded s D setters w
  let T : Irs → History → World → Prop := fun _ _ w =>
    ListsAdded s D setters w ∧ ∀ impi ∈ addedImpis setters, (w.stores s).Maps impi D
  have hfirst : Safe serve (updating s D setters)
      (fun r hs' w' => r.1 = .ok ∧ R r.2 hs' w' ∨ r.1 ≠ .ok ∧ False) (putIrsImpu irs s) hs w := by
    unfold putIrsImpu
    rw [if_pos hex]
    refine (safe_updateIrsImpu readsFree_updating updateRule_updating h fun _ => hcur).weaken ?_
    rintro r hs' w' (hok | ⟨-, hfalse⟩)
    · exact .inl hok
    · exact hfalse.elim
  -- The other two parts keep the lists of the record that the first one wrote.
  refine (safe_putIrsAction (T := T) (E := fun _ _ _ => False) hfirst ?_).weaken ?_
  · rintro irs' hs' w' ⟨hready, hlists⟩
    refine (safe_updateIrsAssociatedImpus readsFree_updating relyLater_updating
      (associatedRule_updating hready.fields.untracked) ⟨hready, hlists, by simp⟩).bind ?_
    intro _ hs₁ w₁ hq
    obtain ⟨-, h₁⟩ := hq w₁ ((updating s D setters).rely_refl w₁)
    refine (safe_updateIrsImpiMappings readsFree_updating relyLater_updating
      (mappingRule_updating hready.fields.defaultImpu hready.fields.kept) h₁).weaken ?_
    rintro _ hs₂ w₂ ⟨done, h₂, hdone⟩
    exact ⟨h₂.lists, fun impi himpi => h₂.maps impi (hdone impi (hready.fields.added impi himpi))⟩
  · rintro r hs' w' (⟨hok, hlists, hmaps⟩ | ⟨-, hfalse⟩)
    · exact ⟨hok, hlists, hmaps⟩
    · exact hfalse.elim

/-- What a lookup knows of the record it has read at `D`. -/
def ReadAt (s : StoreId) (D : String) (d : DefaultImpu) (w : World) : Prop :=
  d.impu = D → ∃ data : DefaultImpuData, d = data.fromData D d.cas s ∧ D ∉ data.assocImpu ∧
    CasTable.Seen (w.stores s).impus D d.cas (.decoded (.default data)) ∧
    ∃ cur, (w.stores s).defaultAt D = some cur ∧ D ∉ cur.assocImpu ∧
      ∀ impi ∈ data.impis, impi ∈ cur.impis

/-- The store has a record at `D` that does not list `D`, and its mappings decode. -/
structure Stored (s : StoreId) (D : String) (w : World) : Prop where
  record : ∃ d, (w.stores s).defaultAt D = some d ∧ D ∉ d.assocImpu
  decode : MappingsDecode s w

theorem Stored.rely {w w' : World} (h : Stored s D w) (hr : (updating s D setters).rely w w') :
    Stored s D w' := by
  obtain ⟨d, hd, hself⟩ := h.record
  obtain ⟨d', hd', hself', -⟩ := hr.2.2.1 d hd hself
  exact ⟨⟨d', hd', hself'⟩, hr.2.2.2.decode h.decode⟩

theorem readRule_updating : ReadRule (updating s D setters) s
    (fun _ w => Stored s D w) (fun d _ w => ReadAt s D d w) where
  stable :=
    { rely := fun h hr => h.rely hr
      read := fun h ho =>
        h.rely (show (updating s D setters).rely _ _ from rely_of_isRead ho) }
  found := by
    intro hs w impu d h _ hd hD
    obtain ⟨cas, data, hcell, hdata⟩ := ImpuStore.cells_of_getImpu hd
    cases data with
    | associated D' e => cases hdata
    | default data =>
      cases hdata
      obtain rfl : impu = D := hD
      obtain ⟨cur, hcur, hself⟩ := h.record
      have hdefault := ImpuStore.defaultAt_eq_some.mpr (CasTable.value?_of_cells hcell)
      obtain rfl : cur = data := Option.some.inj (hcur.symm.trans hdefault)
      exact ⟨cur, rfl, hself, .of_cells hcell, cur, hcur, hself, fun _ h => h⟩
  rely := by
    intro d hs w w' h hr hD
    obtain ⟨data, hdata, hself, hseen, cur, hcur, hcurself, himpis⟩ := h hD
    obtain ⟨cur', hcur', hself', himpis'⟩ := hr.2.2.1 cur hcur hcurself
    exact ⟨data, hdata, hself, hseen.later hr.1, cur', hcur', hself',
      fun impi h => himpis' impi (himpis impi h)⟩
  time h := h

variable {px : XmlParser} {cache : MemcachedCache}

theorem getD_of_isSome_eq_false {α : Type} {last : Option α} (h : last.isSome = false) (x : α) :
    last.getD x = x := by
  cases last with
  | none => rfl
  | some v => cases h

/-- An IRS read from the record `data`, after the setters. -/
theorem updating_applyAll (hxml : KeepsDefault setters px D) (data : DefaultImpuData) (cas : Nat)
    (now : Int) (hself : D ∉ data.assocImpu) :
    let irs := (Irs.ofDefaultImpu (data.fromData D cas s) now).applyAll px setters
    Updating D setters irs ∧ Current irs data ∧
      ∀ impi : String, irs.impis[impi]? = some .unchanged → impi ∈ data.impis := by
  intro irs
  have happ := applied_applyAll px setters (Irs.ofDefaultImpu (data.fromData D cas s) now)
  have himpis : ∀ impi : String, irs.impis[impi]? = if impi ∈ addedImpis setters then some .added
      else if impi ∈ data.impis then some .unchanged else none := by
    intro impi
    rw [happ.impis]
    exact if_congr Iff.rfl rfl (Data.getElem?_ofStored _ _)
  have hfor : IsFor D irs :=
    (isFor_ofDefaultImpu now (d := data.fromData D cas s) rfl hself).applyAll hxml
  -- What was set has the value of the last setter, and the rest that of the record.
  refine ⟨⟨hfor, happ.registrationStateSet, fun state h => ?_, happ.imsSubXmlSet, fun xml h => ?_,
    happ.chargingAddressesSet, fun addresses h => ?_, fun impi h => ?_, fun impi => ?_⟩,
    ⟨fun h => ?_, fun h => ?_, fun h => ?_, fun impi h => ?_⟩, fun impi h => ?_⟩
  · rw [happ.registrationState, h]
    rfl
  · rw [happ.imsSubXml, h]
    rfl
  · rw [happ.chargingAddresses, h]
    rfl
  · rw [himpis, if_pos h]
  · rw [himpis]
    split
    · nofun
    · split <;> nofun
  · rw [happ.registrationStateSet] at h
    rw [happ.registrationState, getD_of_isSome_eq_false h]
    show RegistrationState.isRegistered (if data.registrationState then _ else _) = _
    cases data.registrationState <;> rfl
  · rw [happ.imsSubXmlSet] at h
    rw [happ.imsSubXml, getD_of_isSome_eq_false h]
    rfl
  · rw [happ.chargingAddressesSet] at h
    rw [happ.chargingAddresses, getD_of_isSome_eq_false h]
    rfl
  · refine Data.mem_present.mpr ?_
    show irs.impis[impi]? = _ ∨ irs.impis[impi]? = _
    rw [himpis, if_pos h]
    split
    · exact .inr rfl
    · exact .inl rfl
  · rw [himpis] at h
    by_contra hmem
    rw [if_neg hmem] at h
    split at h <;> cases h

/-- One client, among any number of others. -/
theorem safe_client_updating (hremote : cache.remoteStores = [])
    (hxml : KeepsDefault setters px D) (lookup : Lookup) {hs : History} {w : World}
    (h : Stored cache.localStore D w) :
    Safe serve (updating cache.localStore D setters)
      (fun r _ w' => ∀ put, r = some put → put.1 = .ok ∧ ListsAdded cache.localStore D setters w' ∧
        ∀ impi ∈ addedImpis setters, (w'.stores cache.localStore).Maps impi D)
      ((updateClient lookup setters).run px cache D) hs w := by
  refine safe_client hremote readsFree_updating readRule_updating ?_
    (fun hnew _ => absurd hnew (Option.some_ne_none _).symm)
    (fun _ put hput => absurd hput (Option.some_ne_none put).symm) h
  rintro irs hs w _ ⟨⟩ hD ⟨d, now, rfl, hd⟩ hstored
  obtain ⟨data, hdata, hself, hseen, cur, hcur, hcurself, himpis⟩ := hd hD
  obtain ⟨hup, hcurrent, htracks⟩ := updating_applyAll (s := cache.localStore) hxml data d.cas now hself
  rw [← hdata] at hup hcurrent htracks
  have happ := applied_applyAll px setters (Irs.ofDefaultImpu d now)
  refine (safe_put_updating happ.existing ⟨hup, ⟨cur, hcur, hcurself, ?_⟩, hstored.decode⟩
    ⟨data, ?_, hcurrent⟩).weaken ?_
  · exact fun impi h => himpis impi (htracks impi h)
  · rw [happ.cas]
    exact hseen
  · rintro r hs' w' hr put ⟨⟩
    exact hr

/-! ### Every interleaving -/

section Run

variable {ι : Type}

/-- The client that a trace entry shows to have written the record at `D`. -/
def commitOf (s : StoreId) (D : String) : ι × Event Call Call.Resp → Option ι
  | (i, ⟨.setImpu s' (.default r), status⟩) =>
    if s' = s ∧ r.impu = D ∧ Status.isOk status then some i else none
  | _ => none

/-- The clients that wrote the record at `D`, in the order of their writes. -/
def commits (s : StoreId) (D : String) (tr : List (ι × Event Call Call.Resp)) : List ι :=
  tr.filterMap (commitOf s D)

/-- The value of the last commit among the clients that set it, and `old` if none did. -/
def lastCommitted {α : Type} (s : StoreId) (D : String) (set : ι → Option α) (old : α)
    (tr : List (ι × Event Call Call.Resp)) : α :=
  (((commits s D tr).filterMap set).getLast?).getD old

theorem lastCommitted_snoc {α : Type} (set : ι → Option α) (old : α)
    (tr : List (ι × Event Call Call.Resp)) (e : ι × Event Call Call.Resp) :
    lastCommitted s D set old (tr ++ [e])
      = ((commitOf s D e).bind set).getD (lastCommitted s D set old tr) := by
  unfold lastCommitted commits
  cases he : commitOf s D e with
  | none => simp [he]
  | some i =>
    cases hi : set i with
    | none => simp [he, hi]
    | some v => simp [he, hi]

theorem commitOf_of_impuKey {i : ι} {o : Call} {r : o.Resp} (h : o.impuKey ≠ some (s, D)) :
    commitOf s D (i, ⟨o, r⟩) = none := by
  cases o with
  | setImpu s' impu =>
    cases impu with
    | default d =>
      refine if_neg fun hcond => h ?_
      rw [← hcond.1, ← hcond.2.1]
      rfl
    | associated a => rfl
  | getImpu s' impu => rfl
  | setImpuWithoutCas s' impu => rfl
  | addImpu s' impu => rfl
  | deleteImpu s' impu => rfl
  | getImpiMapping s' impi => rfl
  | setImpiMapping s' m => rfl
  | deleteImpiMapping s' m => rfl
  | time => rfl
  | progressCb => rfl

/-- The record at `D` after the trace `tr`, from the record `d₀` at the start. -/
structure FromCommits (s : StoreId) (D : String) (setters : ι → List Setter)
    (d₀ : DefaultImpuData) (tr : List (ι × Event Call Call.Resp)) (d : DefaultImpuData) :
    Prop where
  impis : ∀ impi ∈ d₀.impis, impi ∈ d.impis
  registrationState : d.registrationState = lastCommitted s D
    (fun i => (lastRegState (setters i)).map RegistrationState.isRegistered) d₀.registrationState tr
  serviceProfile : d.serviceProfile
    = lastCommitted s D (fun i => lastImsSubXml (setters i)) d₀.serviceProfile tr
  chargingAddresses : d.chargingAddresses
    = lastCommitted s D (fun i => lastChargingAddresses (setters i)) d₀.chargingAddresses tr

/-- A call that is no commit leaves the record and the commits. -/
theorem FromCommits.snoc_none {setters : ι → List Setter} {d₀ d : DefaultImpuData}
    {tr : List (ι × Event Call Call.Resp)} {e : ι × Event Call Call.Resp}
    (h : FromCommits s D setters d₀ tr d) (he : commitOf s D e = none) :
    FromCommits s D setters d₀ (tr ++ [e]) d := by
  refine ⟨h.impis, ?_, ?_, ?_⟩ <;> rw [lastCommitted_snoc, he]
  · exact h.registrationState
  · exact h.serviceProfile
  · exact h.chargingAddresses

/-- A commit takes the fields that its client set from the client. -/
theorem FromCommits.snoc_commit {setters : ι → List Setter} {d₀ d d' : DefaultImpuData}
    {tr : List (ι × Event Call Call.Resp)} {e : ι × Event Call Call.Resp} {i : ι}
    (h : FromCommits s D setters d₀ tr d) (he : commitOf s D e = some i)
    (hover : Overwrites D (setters i) d d') : FromCommits s D setters d₀ (tr ++ [e]) d' := by
  refine ⟨fun impi hi => hover.impis impi (h.impis impi hi), ?_, ?_, ?_⟩ <;>
    rw [lastCommitted_snoc, he]
  · exact hover.registrationState.trans (by rw [h.registrationState]; rfl)
  · exact hover.serviceProfile.trans (by rw [h.serviceProfile]; rfl)
  · exact hover.chargingAddresses.trans (by rw [h.chargingAddresses]; rfl)

/-- One guaranteed call keeps the relation between the record and the commits. -/
theorem fromCommits_step {setters : ι → List Setter} {d₀ : DefaultImpuData} {i : ι} {hs : History}
    {w : World} {tr : List (ι × Event Call Call.Resp)} {o : Call}
    (h : ∃ d, (w.stores s).defaultAt D = some d ∧ FromCommits s D setters d₀ tr d)
    (hg : (updating s D (setters i)).guar hs w o) :
    ∃ d, ((serve o w).2.stores s).defaultAt D = some d ∧
      FromCommits s D setters d₀ (tr ++ [(i, ⟨o, (serve o w).1⟩)]) d := by
  obtain ⟨d, hd, hfrom⟩ := h
  by_cases hkey : o.impuKey = some (s, D)
  · obtain ⟨r, rfl, hwrite⟩ := hg.1 hkey
    have hD : r.impu = D := by simpa [Call.impuKey, Impu.impu] using hkey
    rcases serve_setImpu_cases w s (.default r) with ⟨hv, hok, hworld⟩ | ⟨-, hcont, hworld⟩
    · have hv' : (w.stores s).impus.version D = r.cas := by
        rw [← hD]
        exact hv
      obtain ⟨d₁, hd₁, hover⟩ := hwrite hv'
      obtain rfl : d = d₁ := Option.some.inj (hd.symm.trans hd₁)
      rw [hworld, show (Impu.default r).impu = D from hD]
      exact ⟨_, defaultAt_setImpus_put w s D _,
        hfrom.snoc_commit (if_pos ⟨rfl, hD, by rw [hok]; rfl⟩) hover⟩
    · rw [hworld]
      refine ⟨d, hd, hfrom.snoc_none (if_neg fun hcond => ?_)⟩
      rw [hcont] at hcond
      cases hcond.2.2
  · rw [ImpuStore.defaultAt_congr (serve_impus_cells w hkey)]
    exact ⟨d, hd, hfrom.snoc_none (commitOf_of_impuKey hkey)⟩

variable [DecidableEq ι]

/-- No update is lost, in any schedule of any number of clients. `d₀` is the record at the
start. After the schedule there is a record `d` with all its IMPIs; its fields are those of
the last commit that set them; and a client that has obtained the IRS and returned has
succeeded, with its IMPIs in the record and in their mappings. -/
theorem no_lost_update (px : XmlParser) (cache : MemcachedCache)
    (hremote : cache.remoteStores = []) (D : String) (lookups : ι → Lookup)
    (setters : ι → List Setter) (hxml : ∀ i, KeepsDefault (setters i) px D) (w : World)
    (d₀ : DefaultImpuData) (hd₀ : (w.stores cache.localStore).defaultAt D = some d₀)
    (hself : D ∉ d₀.assocImpu) (hdecode : MappingsDecode cache.localStore w) (is : List ι) :
    let c := Pool.run serve is (updatePool px cache D w lookups setters)
    ∃ d, (c.world.stores cache.localStore).defaultAt D = some d ∧
      FromCommits cache.localStore D setters d₀ c.trace d ∧
      ∀ i put, c.prog i = .ret (some put) → put.1 = .ok ∧ ∀ impi ∈ addedImpis (setters i),
        impi ∈ d.impis ∧ (c.world.stores cache.localStore).Maps impi D := by
  intro c
  -- Each thread keeps to its own condition, and the trace says what the record is made from.
  have hstart : Pool.Sound serve (fun i => updating cache.localStore D (setters i))
      (fun i r _ w' => ∀ put, r = some put → put.1 = .ok ∧
        ListsAdded cache.localStore D (setters i) w' ∧
        ∀ impi ∈ addedImpis (setters i), (w'.stores cache.localStore).Maps impi D)
      (fun w tr => ∃ d, (w.stores cache.localStore).defaultAt D = some d ∧
        FromCommits cache.localStore D setters d₀ tr d)
      (updatePool px cache D w lookups setters) :=
    ⟨fun i => safe_client_updating hremote (hxml i) _ ⟨⟨d₀, hd₀, hself⟩, hdecode⟩,
      d₀, hd₀, fun _ h => h, rfl, rfl, rfl⟩
  have hsound := hstart.run (fun i j w tr o _ _ hg => rely_of_guar_updating (setters j) hg)
    (fun i w tr o h hg => fromCommits_step h hg) is
    (Pool.meets_of_forall serve (fun _ _ _ _ => trivial) is _)
  obtain ⟨d, hd, hfrom⟩ := hsound.inv
  refine ⟨d, hd, hfrom, fun i put hput => ?_⟩
  obtain ⟨hok, ⟨d', hd', -, hlists⟩, hmaps⟩ := hsound.post hput put rfl
  obtain rfl : d' = d := Option.some.inj (hd'.symm.trans hd)
  exact ⟨hok, fun impi h => ⟨hlists impi h, hmaps impi h⟩⟩

end Run

/-- A subscriber with one IMPI, whose record lists the given associated IMPUs. -/
def oneImpiRecord (assocImpu : List String) : DefaultImpuData where
  registrationState := false
  serviceProfile := "profile"
  expiry := 100
  assocImpu := assocImpu
  impis := ["impi@example.com"]
  ecfs := []
  ccfs := []

/-- A store with that record only. -/
def oneImpiWorld (assocImpu : List String) : World :=
  .ofTables [("sip:d@example.com", .default (oneImpiRecord assocImpu))] []

/-- A registration of a new IMPI (`true`) and a change of the charging addresses (`false`). -/
def newImpiAndCharging : Bool → List Setter
  | true => [.setRegState .registered, .addAssociatedImpi "new@example.com", .setTtl 300]
  | false => [.setChargingAddresses { ccfs := ["ccf"] }]

/-- The two clients on the store with the record. -/
def newImpiAndChargingPool (assocImpu : List String) :
    Pool Bool Call Call.Resp World (Option (Status × Irs)) :=
  updatePool (.ofTable []) ⟨0, []⟩ "sip:d@example.com" (oneImpiWorld assocImpu)
    (fun _ => .byImpu "sip:d@example.com") newImpiAndCharging

theorem keepsDefault_newImpiAndCharging (i : Bool) :
    KeepsDefault (newImpiAndCharging i) (.ofTable []) "sip:d@example.com" := by
  intro xml hmem
  cases i <;> simp [newImpiAndCharging] at hmem

/-- The charging addresses are set on an IRS that was read before the registration, and
the two meet in the record. -/
theorem no_lost_update_newImpiAndCharging :
    let c := Pool.run serve
      ([false, false, false] ++ List.replicate 12 true ++ List.replicate 7 false)
      (newImpiAndChargingPool [])
    commits 0 "sip:d@example.com" c.trace = [true, false] ∧
    ∃ d, (c.world.stores 0).defaultAt "sip:d@example.com" = some d ∧
      FromCommits 0 "sip:d@example.com" newImpiAndCharging (oneImpiRecord []) c.trace d ∧
      ∀ i put, c.prog i = .ret (some put) → put.1 = .ok ∧
        ∀ impi ∈ addedImpis (newImpiAndCharging i),
          impi ∈ d.impis ∧ (c.world.stores 0).Maps impi "sip:d@example.com" := by
  have hdecode : MappingsDecode 0 (oneImpiWorld []) := by
    intro impi
    simp [oneImpiWorld, World.ofTables, CasTable.value?, CasTable.empty]
  exact ⟨by decide, no_lost_update (.ofTable []) ⟨0, []⟩ rfl "sip:d@example.com" _
    newImpiAndCharging keepsDefault_newImpiAndCharging (oneImpiWorld []) (oneImpiRecord [])
    (by decide) (by decide) hdecode _⟩

/-- A record that lists `sip:d@example.com` among its own associated IMPUs. Both clients
obtain the IRS and return. The registration has refreshed the associated record of
`sip:d@example.com`, and no record of the default IMPU is left. -/
theorem update_lost_by_self_listing :
    let c := Pool.run serve ([false, false] ++ List.replicate 14 true ++ List.replicate 6 false)
      (newImpiAndChargingPool ["sip:d@example.com"])
    (∀ i, KeepsDefault (newImpiAndCharging i) (.ofTable []) "sip:d@example.com") ∧
      ((oneImpiWorld ["sip:d@example.com"]).stores 0).defaultAt "sip:d@example.com"
        = some (oneImpiRecord ["sip:d@example.com"]) ∧
      (∀ i, ∃ put, c.prog i = .ret (some put)) ∧
      (c.world.stores 0).defaultAt "sip:d@example.com" = none := by
  refine ⟨keepsDefault_newImpiAndCharging, by decide, fun i => ?_, by decide⟩
  cases i with
  | false => exact ⟨_, rfl⟩
  | true => exact ⟨_, rfl⟩

end Homestead

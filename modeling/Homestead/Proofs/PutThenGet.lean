import Homestead.Proofs.SoloPut
import Homestead.Proofs.SoloGet

/-!
# `Homestead.Proofs.PutThenGet`: a refreshed put makes every identity resolve

A registration writes its IRS with a new TTL, and from then on every identity of the IRS
must lead to it, whatever inconsistency was in the store before. The put is on a single
reliable store with no other client.

* `Irs.SameData` says that a looked-up IRS carries the data of another one.
* `lookup_after_refreshed_put` is the result: the put ends with `OK`, the default IMPU and
  every associated IMPU resolve to the data of the IRS, and the mapping of every IMPI has
  the default IMPU.
-/

set_option autoImplicit false

namespace Homestead

open CacheProg

/-- A record read from a store is `REGISTERED` or `UNREGISTERED`. -/
theorem DefaultImpuData.fromData_registrationState (d : DefaultImpuData) (impu : String)
    (cas : Nat) (s : StoreId) :
    (d.fromData impu cas s).registrationState = .registered ∨
      (d.fromData impu cas s).registrationState = .unregistered := by
  unfold fromData
  cases d.registrationState
  · exact .inr rfl
  · exact .inl rfl

namespace Irs

/-- `found` carries the data of `irs`: the same default IMPU, service profile, charging
addresses and registration state, and the same lists of associated IMPUs and IMPIs. -/
structure SameData (irs found : Irs) : Prop where
  defaultImpu : found.defaultImpu = irs.defaultImpu
  imsSubXml : found.imsSubXml = irs.imsSubXml
  chargingAddresses : found.chargingAddresses = irs.chargingAddresses
  registrationState : found.registrationState = irs.registrationState
  associatedImpus : found.getAssociatedImpus = irs.getAssociatedImpus
  impis : found.getAssociatedImpis = irs.getAssociatedImpis

/-- The IRS object after it was put on the store `s` at `w`. It is the object that was put,
except when the record was replaced after the object was read: then the put takes in the
fields that the user did not set. -/
def PutAs (irs : Irs) (s : StoreId) (w : World) (irs' : Irs) : Prop :=
  irs' = irs ∨ irs.existing = true ∧ ¬ irs.IsCurrent s w ∧ ∃ cas d now,
    (w.stores s).impus.cells irs.defaultImpu = some (cas, .decoded (.default d)) ∧
      irs' = irs.updateFromImpuFromStore (d.fromData irs.defaultImpu cas s) now

/-- A state that a store can hold: anything that is not `REGISTERED` reads back as
`UNREGISTERED`. -/
def Storable (irs : Irs) : Prop :=
  irs.registrationState = .registered ∨ irs.registrationState = .unregistered

/-- An IRS that is stored and read back has the data it was stored with. -/
theorem sameData_ofDefaultImpu {irs : Irs} (hstate : irs.Storable) (expiry : Int) (cas : Nat)
    (s : StoreId) (now : Int) :
    irs.SameData (ofDefaultImpu ((irs.recordData expiry).fromData irs.defaultImpu cas s) now) where
  defaultImpu := rfl
  imsSubXml := rfl
  chargingAddresses := rfl
  registrationState := by
    show (if decide (irs.registrationState = .registered) = true then _ else _) = _
    rcases hstate with h | h <;> simp [h]
  associatedImpus := Data.present_ofStored _
  impis := Data.present_ofStored _

namespace PutAs

variable {irs irs' : Irs} {s : StoreId} {w : World}

theorem defaultImpu (h : irs.PutAs s w irs') : irs'.defaultImpu = irs.defaultImpu := by
  rcases h with rfl | ⟨-, -, _, _, _, -, rfl⟩ <;> rfl

theorem refreshed (h : irs.PutAs s w irs') : irs'.refreshed = irs.refreshed := by
  rcases h with rfl | ⟨-, -, _, _, _, -, rfl⟩ <;> rfl

/-- The merge of a refreshed IRS lists the same associated IMPUs. -/
theorem getAssociatedImpus (h : irs.PutAs s w irs') (hr : irs.refreshed = true) :
    irs'.getAssociatedImpus = irs.getAssociatedImpus := by
  rcases h with rfl | ⟨-, -, _, d, _, -, rfl⟩
  · rfl
  · show (if irs.refreshed = true then _ else _ : Data).present = _
    rw [if_pos hr]
    exact Data.present_emplaceDeleted _ _

theorem storable (h : irs.PutAs s w irs') (hs : irs.Storable) : irs'.Storable := by
  rcases h with rfl | ⟨-, -, _, d, _, -, rfl⟩
  · exact hs
  · show (if irs.registrationStateSet = true then _ else _) = _ ∨
      (if irs.registrationStateSet = true then _ else _) = _
    split
    · exact hs
    · exact DefaultImpuData.fromData_registrationState d _ _ _

end PutAs

end Irs

/-- The first operation of the put of a refreshed and registered IRS writes its record. -/
theorem eval_putIrsImpu_refreshed (irs : Irs) (s : StoreId) {w : World}
    (hdec : (w.stores s).impus.value? irs.defaultImpu ≠ some .corrupt)
    (hr : irs.refreshed = true) (hreg : irs.registrationState = .registered) :
    ∃ irs' w₁, Eval serve (putIrsImpu irs s) w (.ok, irs') w₁ ∧ irs.PutAs s w irs' ∧
      RecordWritten irs' s w w₁ := by
  unfold putIrsImpu
  cases hex : irs.existing with
  | false =>
    obtain ⟨w₁, he, hcase⟩ := eval_createIrsImpu irs s w
    rcases hcase with ⟨hwritten, -⟩ | ⟨hne, -⟩
    · exact ⟨irs, w₁, he.bind (.ret _ _), .inl rfl, hwritten.toRecordWritten⟩
    · exact absurd hreg hne
  | true =>
    obtain ⟨status, irs', w₁, he, hcase⟩ := eval_updateIrsImpu irs s (.inr hdec)
    rcases hcase with ⟨rfl, hwritten, hirs'⟩ | ⟨-, -, ⟨hr', -⟩, -⟩
    · refine ⟨irs', w₁, he, ?_, hwritten⟩
      rcases hirs' with ⟨-, rfl⟩ | ⟨hcur, -, now, rfl⟩
      · exact .inl rfl
      · -- Only a `DefaultImpu` record is merged.
        unfold Irs.merged
        split
        · rename_i cas d hcell
          exact .inr ⟨hex, hcur, cas, d, now, hcell, rfl⟩
        · exact .inl rfl
    · rw [hr] at hr'
      cases hr'

/-- A lookup of the default IMPU, or of an associated IMPU, once the record and the associated
IMPUs of a refreshed IRS are written. -/
theorem defaultImpuFor_of_updated {cache : MemcachedCache} (hremote : cache.remoteStores = [])
    {irs : Irs} {w₁ w' : World} (hrefreshed : irs.refreshed = true)
    (hupd : Updated irs cache.localStore w₁ w') {record : DefaultImpu}
    (hget : cache.impuGr w' irs.defaultImpu = (.ok, some (.default record)))
    (hlists : ∀ impu ∈ irs.getAssociatedImpus, record.hasAssociatedImpu impu = true)
    {impu : String} (himpu : impu = irs.defaultImpu ∨ impu ∈ irs.getAssociatedImpus) :
    cache.defaultImpuFor w' impu = (.ok, some record) := by
  unfold MemcachedCache.defaultImpuFor
  rcases himpu with rfl | hmem
  · rw [hget]
  · -- An associated IMPU points at the default IMPU, which lists it.
    have hst : irs.associatedImpus[impu]? = some .added ∨
        irs.associatedImpus[impu]? = some .unchanged ∧ irs.refreshed = true :=
      (Data.mem_present.mp hmem).symm.imp id fun hst => ⟨hst, hrefreshed⟩
    obtain ⟨expiry, hvalue⟩ := hupd.pointsAt hst
    obtain ⟨cas, hcell⟩ := CasTable.value?_eq_some.mp hvalue
    rw [MemcachedCache.impuGr_local hremote, ImpuStore.getImpu_of_decoded hcell]
    show MemcachedCache.checkTarget impu (cache.impuGr w' irs.defaultImpu) = _
    rw [hget]
    simp only [MemcachedCache.checkTarget, hlists impu hmem, if_true]

/-- A refreshed put makes every identity resolve to the new data, whatever was in the
store. -/
theorem lookup_after_refreshed_put {cache : MemcachedCache} (hremote : cache.remoteStores = [])
    {w : World} (hdec : (w.stores cache.localStore).Decodable) {irs : Irs}
    (hrefreshed : irs.refreshed = true) (hreg : irs.registrationState = .registered)
    (hself : irs.defaultImpu ∉ irs.getAssociatedImpus) :
    ∃ irs' w', Eval serve (cache.putImplicitRegistrationSet irs) w (.ok, irs') w' ∧
      irs.PutAs cache.localStore w irs' ∧
      (∀ impu, impu = irs.defaultImpu ∨ impu ∈ irs'.getAssociatedImpus →
        ∃ found w'', Eval serve (cache.getImplicitRegistrationSetForImpu impu) w'
          (.ok, some found) w'' ∧ irs'.SameData found) ∧
      ∀ impi ∈ irs'.getAssociatedImpis,
        (w'.stores cache.localStore).Maps impi irs.defaultImpu := by
  let s := cache.localStore
  obtain ⟨irs', w₁, hfirst, hput, hwritten⟩ :=
    eval_putIrsImpu_refreshed irs s (hdec.impus _) hrefreshed hreg
  have hr' : irs'.refreshed = true := hput.refreshed.trans hrefreshed
  have hmappings : (w₁.stores s).mappings = (w.stores s).mappings := hwritten.only.mappings
  have hdec₁ : ∀ impi, (w₁.stores s).mappings.value? impi ≠ some .corrupt := by
    intro impi
    rw [hmappings]
    exact hdec.mappings impi
  obtain ⟨w', he, hupd⟩ := eval_putIrsAction hfirst fun _ impi _ => hdec₁ impi
  have hself' : irs'.defaultImpu ∉ irs'.getAssociatedImpus := by
    rw [hput.defaultImpu, hput.getAssociatedImpus hrefreshed]
    exact hself
  -- The default IMPU's record survives the two later operations.
  obtain ⟨cas, expiry, hrecord⟩ := hwritten.written
  have hkept : (w'.stores s).impus.cells irs'.defaultImpu
      = some (cas, .decoded (.default (irs'.recordData expiry))) := by
    rw [hupd.cells_of_notMem hself', hrecord]
    rintro ⟨expiry', hpoints⟩
    rw [CasTable.value?_of_cells hrecord] at hpoints
    cases hpoints
  have hget : cache.impuGr w' irs'.defaultImpu
      = (.ok, some (.default ((irs'.recordData expiry).fromData irs'.defaultImpu cas s))) := by
    rw [MemcachedCache.impuGr_local hremote]
    exact ImpuStore.getImpu_of_decoded hkept
  have hstorable : irs'.Storable := hput.storable (.inl hreg)
  refine ⟨irs', w', ?_, hput, ?_, ?_⟩
  · unfold MemcachedCache.putImplicitRegistrationSet
    have hchanged : irs.hasChanged = true := by
      simp [Irs.hasChanged, hrefreshed]
    rw [if_pos hchanged]
    exact eval_perform_local hremote he
  · intro impu himpu
    rw [← hput.defaultImpu] at himpu
    have hfound := defaultImpuFor_of_updated hremote hr' hupd hget
      (fun x hx => decide_eq_true hx) himpu
    exact ⟨_, _, MemcachedCache.eval_getImplicitRegistrationSetForImpu_ok hfound,
      Irs.sameData_ofDefaultImpu hstorable _ _ _ _⟩
  · intro impi himpi
    rw [← hput.defaultImpu]
    refine hupd.maps ?_ (hdec₁ impi)
    exact (Data.mem_present.mp himpi).symm.imp id fun hst => ⟨hst, hr'⟩

/-- A store in which the default IMPU of a subscriber is listed under another one, and in
which the mapping of its IMPI leads elsewhere. -/
def inconsistentWorld : World :=
  (World.setMappings { stores := fun _ => .empty, clock := fun _ => 0 } 0
      (CasTable.empty.put "impi@example.com"
        (.decoded { defaultImpus := ["sip:other@example.com"], expiry := 100 }))).setImpus 0
    (CasTable.empty.put "sip:d@example.com"
      (.decoded (.associated "sip:other@example.com" 100)))

/-- A re-registration whose IRS was read before the store became inconsistent. -/
def staleReregistration : Irs :=
  { Irs.new 300 .registered with
    defaultImpu := "sip:d@example.com"
    store := some 0
    cas := 7
    existing := true
    impis := Data.ofStored ["impi@example.com"]
    associatedImpus := Data.ofStored ["sip:a@example.com"] }

/-- The re-registration takes the default IMPU back and makes the associated IMPU resolve. -/
theorem lookup_after_refreshed_put_inconsistent :
    ∃ irs' w' found w'', Eval serve
        (MemcachedCache.putImplicitRegistrationSet ⟨0, []⟩ staleReregistration)
        inconsistentWorld (.ok, irs') w' ∧
      Eval serve (MemcachedCache.getImplicitRegistrationSetForImpu ⟨0, []⟩ "sip:d@example.com")
        w' (.ok, some found) w'' ∧ irs'.SameData found := by
  have hdec : (inconsistentWorld.stores 0).Decodable := by
    constructor
    · intro key
      show (CasTable.empty.put _ _).value? key ≠ _
      rw [CasTable.put_value?]
      split
      · exact nofun
      · exact nofun
    · intro key
      show (CasTable.empty.put _ _).value? key ≠ _
      rw [CasTable.put_value?]
      split
      · exact nofun
      · exact nofun
  obtain ⟨irs', w', hput, -, hget, -⟩ :=
    @lookup_after_refreshed_put ⟨0, []⟩ rfl _ hdec staleReregistration rfl rfl (by decide)
  obtain ⟨found, w'', hfound, hsame⟩ := hget "sip:d@example.com" (.inl rfl)
  exact ⟨irs', w', found, w'', hput, hfound, hsame⟩

end Homestead

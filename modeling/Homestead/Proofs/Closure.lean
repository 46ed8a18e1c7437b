import Homestead.Proofs.PutThenGet
import Homestead.Proofs.Lookup
import Homestead.Proofs.ClosedFor

/-!
# `Homestead.Proofs.Closure`: forward referential closure of the cache

One cache with a single reliable store that starts empty. Complete operations follow each
other: each looks up an IRS, changes it as a handler does and puts it, or deletes it
(`Operation`). `ForwardClosed` says that every `DefaultImpu` record is backed by the records
of the associated IMPUs it lists and by the mappings of the IMPIs it lists.

`Closed` is the invariant behind it. It also says that the identities of different default
IMPUs do not overlap, because one put overwrites the records of all its associated IMPUs.

* `closed_of_updated` carries the invariant through the second and third operation of a put.
* `closed_operation` is the step, and `reachable_forwardClosed` the result for every run.
-/

set_option autoImplicit false

namespace Homestead

open CacheProg

/-! ### Operations -/

section

variable (px : XmlParser) (U : String → String → Prop)

/-- The document has `D` as its default identity and takes its identities from `U D`. -/
def XmlOf (D xml : String) : Prop :=
  ∃ ids, px.getPublicAndDefaultIds xml "" = (ids, D) ∧ U D D ∧ ∀ x ∈ ids, U D x

/-- Every document among the setters is one of `D`. -/
def SettersOf (D : String) (setters : List Setter) : Prop :=
  ∀ xml, Setter.setImsSubXml xml ∈ setters → XmlOf px U D xml

/-- One complete operation on the cache, from the world `w` to the world `w'`. -/
inductive Operation (cache : MemcachedCache) (w w' : World) : Prop
  | update (l : Lookup) (irss : List Irs) (irs : Irs) (req : Request) (w₁ : World)
      (r : Status × Irs) (hlookup : Eval serve (cache.lookup l) w (.ok, irss) w₁)
      (hirs : irs ∈ irss) (hxml : SettersOf px U irs.defaultImpu req.setters)
      (hput : Eval serve (cache.putImplicitRegistrationSet (irs.applyAll px req.setters))
        w₁ r w')
  | create (l : Lookup) (irss : List Irs) (ttl : Int) (state : RegistrationState) (D : String)
      (req : Request) (w₁ : World) (r : Status × Irs)
      (hlookup : Eval serve (cache.lookup l) w (.notFound, irss) w₁)
      (hreq : req.creates = true) (hxml : SettersOf px U D req.setters)
      (hput : Eval serve (cache.putImplicitRegistrationSet
        ((Irs.blank ttl state).applyAll px req.setters)) w₁ r w')
  | delete (l : Lookup) (irss : List Irs) (irs : Irs) (w₁ : World) (r : Status × Irs)
      (hlookup : Eval serve (cache.lookup l) w (.ok, irss) w₁) (hirs : irs ∈ irss)
      (hdelete : Eval serve (cache.deleteImplicitRegistrationSet irs) w₁ r w')

/-- The worlds between the operations of a run that starts with an empty store. -/
inductive Reachable (cache : MemcachedCache) : World → Prop
  | init (w : World) (h : w.stores cache.localStore = .empty) : Reachable cache w
  | step {w w' : World} (h : Reachable cache w) (hop : Operation px U cache w w') :
      Reachable cache w'

end

/-- Every `DefaultImpu` record is backed: each associated IMPU it lists has a record that
points back, and each IMPI it lists has a mapping with the default IMPU. -/
def ForwardClosed (st : ImpuStore) : Prop :=
  ∀ D d, st.defaultAt D = some d →
    (∀ x ∈ d.assocImpu, st.PointsAt x D) ∧ ∀ impi ∈ d.impis, st.Maps impi D

/-- The invariant of a run. -/
structure Closed (U : String → String → Prop) (st : ImpuStore) : Prop where
  decodable : st.Decodable
  own : ∀ {D d}, st.defaultAt D = some d → U D D
  listed : ∀ {D d}, st.defaultAt D = some d → ∀ x ∈ d.assocImpu, U D x ∧ x ≠ D ∧ st.PointsAt x D
  mapped : ∀ {D d}, st.defaultAt D = some d → ∀ impi ∈ d.impis, st.Maps impi D

theorem Closed.forwardClosed {U : String → String → Prop} {st : ImpuStore} (h : Closed U st) :
    ForwardClosed st :=
  fun _ _ hd => ⟨fun x hx => (h.listed hd x hx).2.2, h.mapped hd⟩

theorem closed_empty (U : String → String → Prop) : Closed U .empty where
  decodable := ⟨nofun, nofun⟩
  own h := nomatch h
  listed h := nomatch h
  mapped h := nomatch h

/-! ### Puts -/

/-- What a put needs of its IRS, for the store before the put. An element that is unchanged
is backed already, and the associated IMPUs are among the identities of `D`. -/
structure Puttable (U : String → String → Prop) (irs : Irs) (st : ImpuStore) : Prop where
  own : U irs.defaultImpu irs.defaultImpu
  tracked : ∀ x : String, irs.associatedImpus[x]? ≠ none →
    U irs.defaultImpu x ∧ x ≠ irs.defaultImpu
  unchanged : ∀ x : String, irs.associatedImpus[x]? = some .unchanged →
    st.PointsAt x irs.defaultImpu
  impis : ∀ impi : String, irs.impis[impi]? = some .unchanged → st.Maps impi irs.defaultImpu

/-- What the first operation of a put leaves: the record of the IRS, or, when an added
record gave way to the one in the store, nothing. In that case the IRS deletes nothing. -/
def FirstPut (irs : Irs) (s : StoreId) (w w₁ : World) : Prop :=
  RecordWritten irs s w w₁ ∨ w₁.stores = w.stores ∧
    (∀ x : String, irs.associatedImpus[x]? ≠ some .deleted) ∧
    ∀ impi : String, irs.impis[impi]? ≠ some .deleted

namespace FirstPut

variable {irs : Irs} {s : StoreId} {w w₁ : World}

theorem mappings (h : FirstPut irs s w w₁) :
    (w₁.stores s).mappings = (w.stores s).mappings := by
  rcases h with hwritten | ⟨hsame, -⟩
  · exact hwritten.only.mappings
  · rw [hsame]

theorem others (h : FirstPut irs s w w₁) {k : String} (hk : k ≠ irs.defaultImpu) :
    (w₁.stores s).impus.cells k = (w.stores s).impus.cells k := by
  rcases h with hwritten | ⟨hsame, -⟩
  · exact hwritten.others k hk
  · rw [hsame]

theorem decodable (h : FirstPut irs s w w₁) (hdec : (w.stores s).Decodable) :
    (w₁.stores s).Decodable := by
  constructor
  · intro key
    rcases h with hwritten | ⟨hsame, -⟩
    · by_cases hkey : key = irs.defaultImpu
      · subst hkey
        obtain ⟨cas, expiry, hcell⟩ := hwritten.written
        rw [CasTable.value?_of_cells hcell]
        exact nofun
      · rw [CasTable.value?, hwritten.others key hkey]
        exact hdec.impus key
    · rw [hsame]
      exact hdec.impus key
  · intro key
    rw [h.mappings]
    exact hdec.mappings key

end FirstPut

section Put

variable {U : String → String → Prop} {irs : Irs} {s : StoreId} {w w₁ w' : World}

/-- The default IMPU is not among the associated IMPUs of an IRS that is to be put. -/
theorem Puttable.isFor {st : ImpuStore} (h : Puttable U irs st) : IsFor irs.defaultImpu irs where
  defaultImpu := rfl
  untracked := by
    by_contra hne
    exact (h.tracked _ hne).2 rfl

/-- An associated IMPU that was backed before the put and is not deleted is backed after it. -/
theorem pointsAt_of_backed (hfirst : FirstPut irs s w w₁) (hupd : Updated irs s w₁ w') {x : String}
    (hx : x ≠ irs.defaultImpu) (hp : (w.stores s).PointsAt x irs.defaultImpu)
    (hdel : irs.associatedImpus[x]? ≠ some .deleted) :
    (w'.stores s).PointsAt x irs.defaultImpu := by
  have hp₁ : (w₁.stores s).PointsAt x irs.defaultImpu := PointsAt.congr hp (hfirst.others hx)
  cases hst : irs.associatedImpus[x]? with
  | none => exact PointsAt.congr hp₁ (hupd.cells_of_untracked hst)
  | some st =>
    cases st with
    | added => exact hupd.pointsAt (.inl hst)
    | deleted => exact absurd hst hdel
    | unchanged =>
      cases hr : irs.refreshed with
      | true => exact hupd.pointsAt (.inr ⟨hst, hr⟩)
      | false => exact PointsAt.congr hp₁ (hupd.cells_of_unchanged hst hr)

/-- The record of the IRS itself, after the whole put. -/
theorem backed_of_updated (hinv : Closed U (w.stores s)) (hput : Puttable U irs (w.stores s))
    (hfirst : FirstPut irs s w w₁) (hupd : Updated irs s w₁ w') {d : DefaultImpuData}
    (hd : (w'.stores s).defaultAt irs.defaultImpu = some d) :
    (∀ x ∈ d.assocImpu, U irs.defaultImpu x ∧ x ≠ irs.defaultImpu ∧
        (w'.stores s).PointsAt x irs.defaultImpu) ∧
      ∀ impi ∈ d.impis, (w'.stores s).Maps impi irs.defaultImpu := by
  -- The default IMPU is not tracked, so its record is the one of the first operation.
  have hkept := hupd.cells_of_untracked hput.isFor.untracked
  have hsource := hfirst
  rcases hsource with hwritten | ⟨hsame, hassoc, himpis⟩
  · obtain ⟨hpoints, hmaps⟩ := (closedFor_of_updated hput.isFor hinv.decodable hwritten hupd).mpr
      (.inr ⟨hput.unchanged, hput.impis⟩) d hd
    refine ⟨fun x hx => ?_, hmaps⟩
    obtain ⟨cas, expiry, hcell⟩ := hwritten.written
    have hd' : d = irs.recordData expiry := by
      rw [ImpuStore.defaultAt_eq_some, CasTable.value?, hkept, hcell] at hd
      cases hd
      rfl
    have hst : irs.associatedImpus[x]? = some .unchanged ∨ irs.associatedImpus[x]? = some .added := by
      rw [hd'] at hx
      exact Data.mem_present.mp hx
    obtain ⟨hU, hne⟩ := hput.tracked x (by rcases hst with h | h <;> simp [h])
    exact ⟨hU, hne, hpoints x hx⟩
  · -- The record of the store stayed, and nothing of the IRS is deleted.
    have hd' : (w.stores s).defaultAt irs.defaultImpu = some d := by
      rw [ImpuStore.defaultAt_eq_some, CasTable.value?, hkept, hsame] at hd
      exact ImpuStore.defaultAt_eq_some.mpr hd
    constructor
    · intro x hx
      obtain ⟨hU, hne, hp⟩ := hinv.listed hd' x hx
      exact ⟨hU, hne, pointsAt_of_backed hfirst hupd hne hp (hassoc x)⟩
    · intro impi himpi
      have hm := Maps.congr (hinv.mapped hd' impi himpi) hfirst.mappings
      exact hupd.maps_of_maps hm (.inr (himpis impi))

/-- A put keeps the invariant. Two default IMPUs have no identity in common, so a put
leaves the associated IMPUs of the others alone. -/
theorem closed_of_updated (hU : ∀ D E x, U D x → U E x → D = E) (hinv : Closed U (w.stores s))
    (hput : Puttable U irs (w.stores s)) (hfirst : FirstPut irs s w w₁)
    (hupd : Updated irs s w₁ w') : Closed U (w'.stores s) := by
  let D := irs.defaultImpu
  have hother : ∀ {E e}, E ≠ D → (w'.stores s).defaultAt E = some e →
      (w.stores s).defaultAt E = some e := by
    intro E e hE he
    rw [ImpuStore.defaultAt_eq_some] at he ⊢
    obtain ⟨cas, hcell⟩ := CasTable.value?_eq_some.mp he
    have hcell₁ := hupd.cells_of_default hcell
    rw [hfirst.others hE] at hcell₁
    exact CasTable.value?_of_cells hcell₁
  refine ⟨hupd.decodable (hfirst.decodable hinv.decodable), fun {E e} he => ?_,
    fun {E e} he => ?_, fun {E e} he => ?_⟩
  · by_cases hE : E = D
    · rw [hE]
      exact hput.own
    · exact hinv.own (hother hE he)
  · by_cases hE : E = D
    · subst hE
      exact (backed_of_updated hinv hput hfirst hupd he).1
    · intro x hx
      obtain ⟨hxE, hne, hp⟩ := hinv.listed (hother hE he) x hx
      have hnotD : ¬ U D x := fun hxD => hE (hU E D x hxE hxD)
      have hxne : x ≠ D := by
        intro heq
        rw [heq] at hnotD
        exact hnotD hput.own
      -- An IMPU of another subscriber is not among the elements of the IRS.
      have huntracked : irs.associatedImpus[x]? = none := by
        by_contra htracked
        exact hnotD (hput.tracked x htracked).1
      refine ⟨hxE, hne, PointsAt.congr hp ?_⟩
      rw [hupd.cells_of_untracked huntracked, hfirst.others hxne]
  · by_cases hE : E = D
    · subst hE
      exact (backed_of_updated hinv hput hfirst hupd he).2
    · intro impi himpi
      have hm := hinv.mapped (hother hE he) impi himpi
      exact hupd.maps_of_maps (Maps.congr hm hfirst.mappings) (.inl hE)

end Put

/-! ### Setters -/

/-- The setters keep the identity of an IRS and what was read with it. -/
structure SameOrigin (irs irs' : Irs) : Prop where
  defaultImpu : irs'.defaultImpu = irs.defaultImpu
  store : irs'.store = irs.store
  cas : irs'.cas = irs.cas
  existing : irs'.existing = irs.existing

/-- One setter on an IRS with the default IMPU of its documents. -/
theorem puttable_apply {px : XmlParser} {U : String → String → Prop} {irs : Irs}
    {st : ImpuStore} {setter : Setter} (h : Puttable U irs st)
    (hxml : ∀ xml, setter = .setImsSubXml xml → XmlOf px U irs.defaultImpu xml) :
    Puttable U (setter.apply px irs) st ∧ SameOrigin irs (setter.apply px irs) := by
  cases setter with
  | setRegState state => exact ⟨⟨h.own, h.tracked, h.unchanged, h.impis⟩, ⟨rfl, rfl, rfl, rfl⟩⟩
  | setChargingAddresses addresses =>
    exact ⟨⟨h.own, h.tracked, h.unchanged, h.impis⟩, ⟨rfl, rfl, rfl, rfl⟩⟩
  | setTtl ttl => exact ⟨⟨h.own, h.tracked, h.unchanged, h.impis⟩, ⟨rfl, rfl, rfl, rfl⟩⟩
  | addAssociatedImpi impi =>
    refine ⟨⟨h.own, h.tracked, h.unchanged, fun i hi => ?_⟩, ⟨rfl, rfl, rfl, rfl⟩⟩
    have hi' : (irs.impis.insert impi .added)[i]? = some .unchanged := hi
    rw [Data.getElem?_insert] at hi'
    split at hi'
    · cases hi'
    · exact h.impis i hi'
  | setImsSubXml xml =>
    -- The document names the same default IMPU, and associated IMPUs that are its own.
    obtain ⟨ids, hids, hown, hU⟩ := hxml xml rfl
    have heq : (Setter.setImsSubXml xml).apply px irs
        = { irs with
            imsSubXmlSet := true
            imsSubXml := xml
            defaultImpu := irs.defaultImpu
            associatedImpus := .setElements ids irs.associatedImpus irs.defaultImpu } := by
      show irs.setImsSubXml px xml = _
      unfold Irs.setImsSubXml
      rw [hids]
    rw [heq]
    refine ⟨⟨hown, fun x hx => ?_, fun x hx => ?_, h.impis⟩, ⟨rfl, rfl, rfl, rfl⟩⟩
    · dsimp only at hx
      rw [Data.getElem?_setElements] at hx
      split at hx
      · rename_i hmem
        split at hx
        · rename_i hne
          exact ⟨hU x hmem, hne.1⟩
        · exact h.tracked x hx
      · exact h.tracked x fun hnone => hx (by rw [hnone]; rfl)
    · dsimp only at hx
      rw [Data.getElem?_setElements] at hx
      split at hx
      · split at hx
        · cases hx
        · exact h.unchanged x hx
      · cases hst : irs.associatedImpus[x]? with
        | none =>
          rw [hst] at hx
          cases hx
        | some st =>
          rw [hst] at hx
          cases hx

/-- All the setters of a request. -/
theorem puttable_applyAll {px : XmlParser} {U : String → String → Prop} {st : ImpuStore}
    (setters : List Setter) {irs : Irs} (h : Puttable U irs st)
    (hxml : SettersOf px U irs.defaultImpu setters) :
    Puttable U (irs.applyAll px setters) st ∧ SameOrigin irs (irs.applyAll px setters) := by
  induction setters generalizing irs with
  | nil => exact ⟨h, rfl, rfl, rfl, rfl⟩
  | cons setter setters ih =>
    have hxml₁ : ∀ xml, setter = .setImsSubXml xml → XmlOf px U irs.defaultImpu xml := by
      rintro xml rfl
      exact hxml xml List.mem_cons_self
    obtain ⟨hput, horigin⟩ := puttable_apply h hxml₁
    have hxml' : SettersOf px U (setter.apply px irs).defaultImpu setters := by
      intro xml hmem
      rw [horigin.defaultImpu]
      exact hxml xml (List.mem_cons_of_mem _ hmem)
    obtain ⟨hput', horigin'⟩ := ih hput hxml'
    exact ⟨hput', horigin'.defaultImpu.trans horigin.defaultImpu,
      horigin'.store.trans horigin.store, horigin'.cas.trans horigin.cas,
      horigin'.existing.trans horigin.existing⟩

/-- A blank IRS after a registration or a call: everything it tracks is added. -/
theorem blank_applyAll {px : XmlParser} {U : String → String → Prop} {D : String}
    (ttl : Int) (state : RegistrationState) {req : Request} (hreq : req.creates = true)
    (hxml : SettersOf px U D req.setters) (st : ImpuStore) :
    let irs := (Irs.blank ttl state).applyAll px req.setters
    Puttable U irs st ∧ irs.existing = false ∧ irs.refreshed = true ∧
      (∀ x : String, irs.associatedImpus[x]? ≠ some .deleted) ∧
      ∀ impi : String, irs.impis[impi]? ≠ some .deleted := by
  dsimp only
  -- The document of the request, and the maps of the IRS, by the kind of request.
  suffices key : ∃ ids, ∃ impi : Option String, U D D ∧ (∀ x ∈ ids, U D x) ∧
      ((Irs.blank ttl state).applyAll px req.setters).defaultImpu = D ∧
      ((Irs.blank ttl state).applyAll px req.setters).existing = false ∧
      ((Irs.blank ttl state).applyAll px req.setters).refreshed = true ∧
      ((Irs.blank ttl state).applyAll px req.setters).associatedImpus
        = Data.setElements ids ∅ D ∧
      ((Irs.blank ttl state).applyAll px req.setters).impis
        = impi.toList.foldl (fun data impi => data.insert impi .added) (∅ : Data) by
    obtain ⟨ids, impi, hown, hU, hD, hex, hr, hassoc, himpis⟩ := key
    have hstate : ∀ (x : String) (st' : State),
        ((Irs.blank ttl state).applyAll px req.setters).associatedImpus[x]? = some st' →
          st' = .added ∧ U D x ∧ x ≠ D := by
      intro x st' hst
      rw [hassoc, Data.getElem?_setElements, Std.ExtTreeMap.getElem?_empty] at hst
      split at hst
      · rename_i hmem
        split at hst
        · rename_i hne
          cases hst
          exact ⟨rfl, hU x hmem, hne.1⟩
        · cases hst
      · cases hst
    have hadded : ∀ (i : String) (st' : State),
        ((Irs.blank ttl state).applyAll px req.setters).impis[i]? = some st' → st' = .added := by
      intro i st' hst
      rw [himpis, Data.getElem?_foldl_insert, Std.ExtTreeMap.getElem?_empty] at hst
      split at hst
      · cases hst
        rfl
      · cases hst
    refine ⟨⟨?_, fun x hx => ?_, fun x hx => ?_, fun i hi => ?_⟩, hex, hr, fun x hx => ?_,
      fun i hi => ?_⟩
    · rw [hD]
      exact hown
    · obtain ⟨st', hst⟩ := Option.ne_none_iff_exists'.mp hx
      rw [hD]
      exact (hstate x st' hst).2
    · cases (hstate x _ hx).1
    · cases hadded i _ hi
    · cases (hstate x _ hx).1
    · cases hadded i _ hi
  cases req with
  | ppr xml addresses => cases hreq
  | call addresses xml ttl' =>
    obtain ⟨ids, hids, hown, hU⟩ := hxml xml (by simp [Request.setters, callSetters])
    refine ⟨ids, none, hown, hU, ?_⟩
    simp [Request.setters, callSetters, Irs.applyAll, Setter.apply, Irs.setImsSubXml, hids,
      Irs.blank, Irs.new, Irs.setRegState, Irs.setTtl, Irs.setChargingAddresses]
  | reg impi addresses xml ttl' =>
    obtain ⟨ids, hids, hown, hU⟩ := hxml xml (by simp [Request.setters, regSetters])
    refine ⟨ids, impi, hown, hU, ?_⟩
    cases impi <;>
      simp [Request.setters, regSetters, Irs.applyAll, Setter.apply, Irs.setImsSubXml, hids,
        Irs.blank, Irs.new, Irs.setRegState, Irs.setTtl, Irs.setChargingAddresses,
        Irs.addAssociatedImpi]

/-! ### Lookups -/

/-- The IRS is built from a record of the store. -/
def FromRecord (irs : Irs) (s : StoreId) (w : World) : Prop :=
  ∃ D cas d now, (w.stores s).impus.cells D = some (cas, .decoded (.default d)) ∧
    irs = Irs.ofDefaultImpu (d.fromData D cas s) now

theorem fromRecord_of_look {cache : MemcachedCache} (hremote : cache.remoteStores = [])
    {w : World} {impu : String} {d : DefaultImpu}
    (h : cache.defaultImpuFor w impu = (.ok, some d)) (now : Int) :
    FromRecord (Irs.ofDefaultImpu d now) cache.localStore w := by
  have hread := MemcachedCache.impuGr_of_look h
  rw [MemcachedCache.impuGr_local hremote] at hread
  obtain ⟨cas, data, hcell, hdata⟩ := ImpuStore.cells_of_getImpu hread
  cases data with
  | default d' =>
    have hd : d = d'.fromData d.impu cas cache.localStore := Impu.default.inj hdata
    exact ⟨d.impu, cas, d', now, hcell, by rw [← hd]⟩
  | associated D expiry => cases hdata

theorem exists_look_of_firstFound {look : String → Status × Option DefaultImpu}
    {impus : List String} {d : DefaultImpu} (hd : d ∈ (firstFound look impus).2) :
    ∃ impu, look impu = (.ok, some d) := by
  induction impus with
  | nil => exact absurd hd List.not_mem_nil
  | cons impu impus ih =>
    unfold firstFound at hd
    split at hd
    · rename_i d' hlook
      rw [List.mem_singleton.mp hd]
      exact ⟨impu, hlook⟩
    · exact ih hd
    · exact absurd hd List.not_mem_nil

/-- Every IRS that an operation finds is built from the answer to the lookup of some IMPU, and
a lookup changes nothing. -/
theorem look_of_lookup {cache : MemcachedCache} {l : Lookup} {w w₁ : World} {status : Status}
    {irss : List Irs} (h : Eval serve (cache.lookup l) w (status, irss) w₁) :
    w₁.stores = w.stores ∧ ∀ irs ∈ irss,
      ∃ impu d, cache.defaultImpuFor w impu = (.ok, some d) ∧ IsIrsOf irs d := by
  cases l with
  | byImpu impu =>
    have hanswer := cache.isAnswer_defaultImpuFor w impu
    generalize hlook : cache.defaultImpuFor w impu = found at hanswer
    -- The run is the one that the answer of the lookup determines.
    have hnone : ∀ {st : Status}, found = (st, none) → st ≠ .ok →
        w₁.stores = w.stores ∧ ∀ irs ∈ irss,
          ∃ impu d, cache.defaultImpuFor w impu = (.ok, some d) ∧ IsIrsOf irs d := by
      intro st hst hne
      have he := MemcachedCache.eval_getImplicitRegistrationSetForImpu_ne (hlook.trans hst) hne
      obtain ⟨heq, rfl⟩ := h.det (he.bind (.ret _ _))
      cases heq
      exact ⟨rfl, fun irs hirs => absurd hirs List.not_mem_nil⟩
    cases hanswer with
    | found d =>
      have he := MemcachedCache.eval_getImplicitRegistrationSetForImpu_ok hlook
      obtain ⟨heq, rfl⟩ := h.det (he.bind (.ret _ _))
      cases heq
      refine ⟨rfl, fun irs hirs => ⟨impu, d, hlook, w.clock 0, ?_⟩⟩
      rw [List.mem_singleton.mp hirs]
    | notFound => exact hnone rfl (by decide)
    | error => exact hnone rfl (by decide)
  | byImpi impi =>
    obtain ⟨irss', w', he, hstores, hirss⟩ :=
      cache.eval_getImplicitRegistrationSetsForImpi impi w
    obtain ⟨heq, rfl⟩ := h.det he
    cases heq
    refine ⟨hstores, fun irs hirs => ?_⟩
    obtain ⟨d, hd, hirsd⟩ : ∃ d ∈ (firstFoundForImpi (cache.defaultImpuFor w)
        (cache.mappingGr w) impi).2, IsIrsOf irs d := by
      rw [List.forall₂_iff_get] at hirss
      obtain ⟨i, rfl⟩ := List.mem_iff_get.mp hirs
      exact ⟨_, List.get_mem _ ⟨i, hirss.1 ▸ i.2⟩, hirss.2 i i.2 _⟩
    unfold firstFoundForImpi at hd
    split at hd
    · obtain ⟨impu, hlook⟩ := exists_look_of_firstFound hd
      exact ⟨impu, d, hlook, hirsd⟩
    · exact absurd hd List.not_mem_nil

/-- With no remote store, every IRS that an operation finds is built from a record of the
local one. -/
theorem fromRecord_of_lookup {cache : MemcachedCache} (hremote : cache.remoteStores = [])
    {l : Lookup} {w w₁ : World} {status : Status} {irss : List Irs}
    (h : Eval serve (cache.lookup l) w (status, irss) w₁) :
    w₁.stores = w.stores ∧ ∀ irs ∈ irss, FromRecord irs cache.localStore w := by
  obtain ⟨hstores, hfound⟩ := look_of_lookup h
  refine ⟨hstores, fun irs hirs => ?_⟩
  obtain ⟨impu, d, hlook, now, rfl⟩ := hfound irs hirs
  exact fromRecord_of_look hremote hlook now

/-- An IRS that was just read is ready to be put again. -/
theorem FromRecord.puttable {U : String → String → Prop} {irs : Irs} {s : StoreId} {w : World}
    (h : FromRecord irs s w) (hinv : Closed U (w.stores s)) :
    Puttable U irs (w.stores s) ∧ irs.existing = true ∧ irs.IsCurrent s w := by
  obtain ⟨D, cas, d, now, hcell, rfl⟩ := h
  have hd : (w.stores s).defaultAt D = some d :=
    ImpuStore.defaultAt_eq_some.mpr (CasTable.value?_of_cells hcell)
  have hmem : ∀ {x : String} {keys : List String}, (Data.ofStored keys)[x]? ≠ none →
      x ∈ keys := by
    intro x keys hx
    rw [Data.getElem?_ofStored] at hx
    by_contra hnot
    rw [if_neg hnot] at hx
    exact hx rfl
  refine ⟨⟨hinv.own hd, fun x hx => ?_, fun x hx => ?_, fun impi hi => ?_⟩, rfl, rfl,
    CasTable.version_of_cells hcell⟩
  · have := hinv.listed hd x (hmem hx)
    exact ⟨this.1, this.2.1⟩
  · have hne : (Data.ofStored d.assocImpu)[x]? ≠ none := by
      rw [show (Data.ofStored d.assocImpu)[x]? = _ from hx]
      exact nofun
    exact (hinv.listed hd x (hmem hne)).2.2
  · have hne : (Data.ofStored d.impis)[impi]? ≠ none := by
      rw [show (Data.ofStored d.impis)[impi]? = _ from hi]
      exact nofun
    exact hinv.mapped hd impi (hmem hne)

/-! ### Operations keep the invariant -/

section Operation

variable {px : XmlParser} {U : String → String → Prop} {cache : MemcachedCache}

/-- A put whose first operation is known. An IRS that has not changed is not written. -/
theorem closed_put (hremote : cache.remoteStores = []) (hU : ∀ D E x, U D x → U E x → D = E)
    {w w₂ w' : World} {irs : Irs} {r : Status × Irs}
    (hinv : Closed U (w.stores cache.localStore))
    (hput : Puttable U irs (w.stores cache.localStore))
    (hfirst : Eval serve (putIrsImpu irs cache.localStore) w (.ok, irs) w₂)
    (hwritten : FirstPut irs cache.localStore w w₂)
    (hrun : Eval serve (cache.putImplicitRegistrationSet irs) w r w') :
    Closed U (w'.stores cache.localStore) := by
  have hdec₂ := hwritten.decodable hinv.decodable
  obtain ⟨w₃, he, hupd⟩ := eval_putIrsAction hfirst fun _ impi _ => hdec₂.mappings impi
  unfold MemcachedCache.putImplicitRegistrationSet at hrun
  split at hrun
  · obtain ⟨-, rfl⟩ := hrun.det (eval_perform_local hremote he)
    exact closed_of_updated hU hinv hput hwritten hupd
  · obtain ⟨-, rfl⟩ := hrun.det ((eval_progressCb w).bind (.ret _ _))
    exact hinv

section RecordDeleted

variable {s : StoreId} {w w₁ : World} {irs : Irs}

/-- Only bytes that do not decode would stay under the default IMPU. -/
theorem RecordDeleted.cells_eq_none (h : RecordDeleted irs s w w₁) (hdec : (w.stores s).Decodable) :
    (w₁.stores s).impus.cells irs.defaultImpu = none := by
  rcases h.gone with hgone | ⟨-, hcor, -⟩
  · exact hgone
  · exact absurd hcor (hdec.impus _)

theorem RecordDeleted.decodable (h : RecordDeleted irs s w w₁) (hdec : (w.stores s).Decodable) :
    (w₁.stores s).Decodable where
  impus key := by
    by_cases hkey : key = irs.defaultImpu
    · rw [hkey, CasTable.value?_eq_none.mpr (h.cells_eq_none hdec)]
      exact nofun
    · rw [CasTable.value?, h.others key hkey]
      exact hdec.impus key
  mappings key := by
    rw [h.only.mappings]
    exact hdec.mappings key

end RecordDeleted

/-- Everything is marked as deleted, so nothing is listed. -/
theorem Irs.notMem_getAssociatedImpus_deleted (irs : Irs) (x : String) :
    x ∉ irs.deleteAssocImpus.deleteImpis.getAssociatedImpus := by
  intro hx
  have hst := Data.mem_present.mp hx
  rw [show irs.deleteAssocImpus.deleteImpis.associatedImpus[x]? = _ from
    Data.getElem?_deleteTracked _ x] at hst
  cases irs.associatedImpus[x]? with
  | none => simp at hst
  | some st => simp at hst

/-- A delete of an IRS that was just read. The other records lose nothing: their associated
IMPUs do not point at the deleted default IMPU. -/
theorem closed_delete (hremote : cache.remoteStores = []) (hU : ∀ D E x, U D x → U E x → D = E)
    {w w' : World} {irs : Irs} {r : Status × Irs} (hinv : Closed U (w.stores cache.localStore))
    (hput : Puttable U irs (w.stores cache.localStore)) (hex : irs.existing = true)
    (hrun : Eval serve (cache.deleteImplicitRegistrationSet irs) w r w') :
    Closed U (w'.stores cache.localStore) := by
  let s := cache.localStore
  let D := irs.defaultImpu
  obtain ⟨irs', w₁, w₂, he, hdel, hirs', hupd⟩ := eval_deleteIrsAction irs s w
  unfold MemcachedCache.deleteImplicitRegistrationSet at hrun
  rw [if_pos hex] at hrun
  obtain ⟨-, rfl⟩ := hrun.det (eval_perform_local hremote he)
  have hD : irs'.deleteAssocImpus.deleteImpis.defaultImpu = D := by
    rcases hirs' with ⟨-, rfl⟩ | ⟨-, now, rfl⟩
    · rfl
    · exact Irs.merged_defaultImpu _ _ _ _
  have hgone : (w₁.stores s).impus.cells D = none := hdel.cells_eq_none hinv.decodable
  -- The records that are left were there before.
  have hother : ∀ {E e}, (w'.stores s).defaultAt E = some e →
      E ≠ D ∧ (w.stores s).defaultAt E = some e := by
    intro E e he
    obtain ⟨cas, hcell⟩ := CasTable.value?_eq_some.mp (ImpuStore.defaultAt_eq_some.mp he)
    have hcell₁ := hupd.cells_of_default hcell
    have hE : E ≠ D := by
      intro heq
      rw [heq, hgone] at hcell₁
      cases hcell₁
    rw [hdel.others E hE] at hcell₁
    exact ⟨hE, ImpuStore.defaultAt_eq_some.mpr (CasTable.value?_of_cells hcell₁)⟩
  refine ⟨hupd.decodable (hdel.decodable hinv.decodable),
    fun {E e} he => hinv.own (hother he).2, fun {E e} he => ?_,
    fun {E e} he => ?_⟩
  · obtain ⟨hE, he'⟩ := hother he
    intro x hx
    obtain ⟨hxE, hne, hp⟩ := hinv.listed he' x hx
    have hxD : x ≠ D := by
      intro heq
      rw [heq] at hxE
      exact hE (hU E D D hxE hput.own)
    refine ⟨hxE, hne, hupd.pointsAt_of_notMem (PointsAt.congr hp (hdel.others x hxD)) ?_
      (irs'.notMem_getAssociatedImpus_deleted x)⟩
    rw [hD]
    exact hE
  · obtain ⟨hE, he'⟩ := hother he
    intro impi himpi
    refine hupd.maps_of_maps (Maps.congr (hinv.mapped he' impi himpi) hdel.only.mappings)
      (.inl ?_)
    rw [hD]
    exact hE

/-- One complete operation keeps the invariant. -/
theorem closed_operation (hremote : cache.remoteStores = [])
    (hU : ∀ D E x, U D x → U E x → D = E) {w w' : World}
    (hinv : Closed U (w.stores cache.localStore)) (hop : Operation px U cache w w') :
    Closed U (w'.stores cache.localStore) := by
  cases hop with
  | update l irss irs req w₁ r hlookup hirs hxml hput =>
    obtain ⟨hstores, hfound⟩ := fromRecord_of_lookup hremote hlookup
    obtain ⟨hputtable, hex, hcur⟩ := (hfound irs hirs).puttable hinv
    obtain ⟨hputtable', horigin⟩ := puttable_applyAll req.setters hputtable hxml
    rw [← hstores] at hinv hputtable'
    have hcur' : (irs.applyAll px req.setters).IsCurrent cache.localStore w₁ := by
      refine ⟨horigin.store.trans hcur.1, ?_⟩
      rw [hstores, horigin.defaultImpu, horigin.cas]
      exact hcur.2
    -- No other client has written, so the first operation writes the IRS as it is.
    obtain ⟨status, irs', w₂, he, hcase⟩ := eval_updateIrsImpu _ cache.localStore (.inl hcur')
    rcases hcase with ⟨rfl, hwritten, hirs'⟩ | ⟨-, -, -, hnot, -⟩
    · rcases hirs' with ⟨-, rfl⟩ | ⟨hnot, -⟩
      · refine closed_put hremote hU hinv hputtable' ?_ (.inl hwritten) hput
        unfold putIrsImpu
        rw [if_pos (horigin.existing.trans hex)]
        exact he
      · exact absurd hcur' hnot
    · exact absurd hcur' hnot
  | create l irss ttl state D req w₁ r hlookup hreq hxml hput =>
    obtain ⟨hstores, -⟩ := fromRecord_of_lookup hremote hlookup
    rw [← hstores] at hinv
    obtain ⟨hputtable, hex, -, hassoc, himpis⟩ := blank_applyAll ttl state hreq hxml
      (w₁.stores cache.localStore)
    obtain ⟨w₂, he, hcase⟩ := eval_createIrsImpu
      ((Irs.blank ttl state).applyAll px req.setters) cache.localStore w₁
    refine @closed_put U cache hremote hU w₁ w₂ w' _ r hinv hputtable ?_ ?_ hput
    · unfold putIrsImpu
      rw [if_neg (by rw [hex]; decide)]
      exact he.bind (.ret _ _)
    · rcases hcase with ⟨hwritten, -⟩ | ⟨-, -, hsame⟩
      · exact .inl hwritten.toRecordWritten
      · exact .inr ⟨hsame, hassoc, himpis⟩
  | delete l irss irs w₁ r hlookup hirs hdelete =>
    obtain ⟨hstores, hfound⟩ := fromRecord_of_lookup hremote hlookup
    obtain ⟨hputtable, hex, -⟩ := (hfound irs hirs).puttable hinv
    rw [← hstores] at hinv hputtable
    exact closed_delete hremote hU hinv hputtable hex hdelete

/-- The invariant holds between the operations of every run. -/
theorem reachable_closed (hremote : cache.remoteStores = [])
    (hU : ∀ D E x, U D x → U E x → D = E) {w : World} (h : Reachable px U cache w) :
    Closed U (w.stores cache.localStore) := by
  induction h with
  | init w hempty =>
    rw [hempty]
    exact closed_empty U
  | step _ hop ih => exact closed_operation hremote hU ih hop

/-- Forward referential closure: in every state between operations, every `DefaultImpu`
record is backed by the records and mappings it lists. -/
theorem reachable_forwardClosed (hremote : cache.remoteStores = [])
    (hU : ∀ D E x, U D x → U E x → D = E) {w : World} (h : Reachable px U cache w) :
    ForwardClosed (w.stores cache.localStore) :=
  (reachable_closed hremote hU h).forwardClosed

end Operation

/-- One document, with a default identity and an associated one. -/
def oneProfile : XmlParser :=
  .ofTable [("profile", ["sip:d@example.com", "sip:a@example.com"])]

/-- The identities of its default IMPU. -/
def oneProfileIds (D x : String) : Prop :=
  D = "sip:d@example.com" ∧ (x = "sip:d@example.com" ∨ x = "sip:a@example.com")

/-- A first registration on an empty store. Its record is there, and it is backed. -/
theorem reachable_forwardClosed_registration :
    ∃ w, Reachable oneProfile oneProfileIds ⟨0, []⟩ w ∧
      (w.stores 0).defaultAt "sip:d@example.com" ≠ none ∧ ForwardClosed (w.stores 0) := by
  let w₀ : World := { stores := fun _ => .empty, clock := fun _ => 0 }
  let req : Request := .reg (some "impi@example.com") {} "profile" 300
  let put := MemcachedCache.putImplicitRegistrationSet ⟨0, []⟩
    ((Irs.blank 0 .notRegistered).applyAll oneProfile req.setters)
  have hrun : (match Prog.exec serve 40 put w₀ with
      | some (_, w) => decide ((w.stores 0).defaultAt "sip:d@example.com" ≠ none)
      | none => false) = true := by decide
  cases hexec : Prog.exec serve 40 put w₀ with
  | none =>
    rw [hexec] at hrun
    cases hrun
  | some p =>
    obtain ⟨r, w⟩ := p
    rw [hexec] at hrun
    -- Nothing is stored at first, so the lookup finds nothing and the IRS is new.
    have hlookup : Eval serve (MemcachedCache.lookup ⟨0, []⟩ (.byImpu "sip:d@example.com")) w₀
        (.notFound, []) w₀ :=
      Eval.bind (MemcachedCache.eval_getImplicitRegistrationSetForImpu_ne
        (show MemcachedCache.defaultImpuFor ⟨0, []⟩ w₀ _ = (.notFound, none) by decide)
        (by decide)) (.ret _ _)
    have hxml : SettersOf oneProfile oneProfileIds "sip:d@example.com" req.setters := by
      intro xml hmem
      have heq : xml = "profile" := by
        simpa [req, Request.setters, regSetters] using hmem
      subst heq
      refine ⟨["sip:d@example.com", "sip:a@example.com"], by decide, ⟨rfl, .inl rfl⟩, ?_⟩
      intro x hx
      simp only [List.mem_cons, List.not_mem_nil, or_false] at hx
      exact ⟨rfl, hx⟩
    have hreach : Reachable oneProfile oneProfileIds ⟨0, []⟩ w :=
      .step (.init w₀ rfl) (.create _ _ 0 .notRegistered _ req w₀ r hlookup rfl hxml
        (Prog.eval_of_exec hexec))
    exact ⟨w, hreach, of_decide_eq_true hrun,
      reachable_forwardClosed rfl (fun D E x hD hE => hD.1.trans hE.1.symm) hreach⟩

end Homestead

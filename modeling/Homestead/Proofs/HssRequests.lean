import Homestead.Model.HssRequests
import Homestead.Proofs.Closure
import Homestead.Proofs.DeleteReported
import Homestead.Proofs.Lookup
import Homestead.Proofs.PushAcknowledged
import Homestead.Proofs.Registrar

/-!
# `Homestead.Proofs.HssRequests`: the requests of the HSS on a registrar

A node handles an RTR or a PPR. Its stores hold the same table (`MemcachedCache.InSync`), and do so
again afterwards: `terminates_run` and `pushes_run` are a `TerminationStep` and a `PushStep` on the
table.

* `MemcachedCache.InSync.eval_getForImpis`, `MemcachedCache.InSync.eval_getForImpus` and
  `MemcachedCache.InSync.eval_getImsSubscription`: what the lookups lead to.
* `ImpuStore.Represents.deleteAll`: the delete of a list of IRSs.
* `Irs.ReadFor.putsFor_pushed`: an IRS that a push has changed may be put.
-/

set_option autoImplicit false

namespace Homestead

open TaskProg

/-! ### Lookups -/

/-- A program of lookups leaves the stores. -/
theorem stores_of_isLookup {α : Type} {p : CacheProg α} (hp : Only Call.IsLookup p) {w w' : World}
    {a : α} (he : Eval serve p w a w') : w'.stores = w.stores := by
  obtain ⟨hs, hran, hserved⟩ := he.served
  have hall := hp.ran hran
  clear he hran
  induction hs generalizing w with
  | nil => exact congrArg World.stores hserved
  | cons e hs ih =>
    rw [ih hserved.2 fun e' he' => hall e' (List.mem_cons_of_mem _ he')]
    exact serve_stores_of_isRead (hall e List.mem_cons_self).isRead w

section Lookups

variable {dir : Directory} {cache : MemcachedCache} {w : World} {tbl : Table}

theorem Table.lists_iff_maps {st : ImpuStore} (h : Consistent dir st) (impi D : String) :
    st.table.Lists impi D ↔ st.Maps impi D := by
  rw [h.maps]
  constructor
  · rintro ⟨r, hr, hlists⟩
    obtain ⟨d, hd, rfl⟩ := Option.map_eq_some_iff.mp hr
    exact ⟨d, hd, hlists⟩
  · rintro ⟨d, hd, hlists⟩
    exact ⟨_, Option.map_eq_some_iff.mpr ⟨d, hd, rfl⟩, hlists⟩

/-- Where no remote store has a mapping that the local one lacks, the lookup sees the local one. -/
theorem MemcachedCache.mappingGr_eq_local {impi : String}
    (h : (w.stores cache.localStore).mappings.cells impi = none →
      ∀ s ∈ cache.remoteStores, (w.stores s).mappings.cells impi = none) :
    cache.mappingGr w impi = (w.stores cache.localStore).getImpiMapping impi := by
  unfold mappingGr
  cases hcell : (w.stores cache.localStore).mappings.cells impi with
  | some p =>
    obtain ⟨cas, blob⟩ := p
    rw [if_neg]
    cases blob with
    | corrupt => simp [ImpuStore.getImpiMapping_of_corrupt hcell]
    | decoded m => simp [ImpuStore.getImpiMapping_of_decoded hcell]
  | none =>
    have hremote := h hcell
    rw [ImpuStore.getImpiMapping_of_none hcell, if_pos rfl]
    generalize cache.remoteStores = rs at hremote
    induction rs with
    | nil => rfl
    | cons s rs ih =>
      rw [mappingRemote, ImpuStore.getImpiMapping_of_none (hremote s List.mem_cons_self),
        if_neg (by simp)]
      exact ih fun s' hs' => hremote s' (List.mem_cons_of_mem _ hs')

/-- An IMPI has a mapping exactly when a registration lists it. -/
theorem Consistent.mapping_eq_none_iff {st : ImpuStore} (h : Consistent dir st) (impi : String) :
    st.mappings.cells impi = none ↔ ∀ D, ¬ st.table.Lists impi D := by
  constructor
  · intro hcell D hlists
    obtain ⟨m, hvalue, -⟩ := (Table.lists_iff_maps h impi D).mp hlists
    rw [CasTable.value?_eq_none.mpr hcell] at hvalue
    cases hvalue
  · intro hnone
    cases hcell : st.mappings.cells impi with
    | none => rfl
    | some p =>
      obtain ⟨cas, blob⟩ := p
      cases blob with
      | corrupt => exact absurd (CasTable.value?_of_cells hcell) (h.decodable.mappings impi)
      | decoded m =>
        obtain ⟨D, Ds, hlist⟩ := List.exists_cons_of_ne_nil (h.leads impi cas m hcell)
        refine absurd ((Table.lists_iff_maps h impi D).mpr ?_) (hnone D)
        rw [maps_of_cells hcell, hlist]
        exact List.mem_cons_self

/-- The mapping of an IMPI leads to the subscribers whose registrations list it. -/
theorem MemcachedCache.InSync.mappingGr_cases (h : cache.InSync dir w tbl) (impi : String) :
    (∃ m D Ds, cache.mappingGr w impi = (.ok, some m) ∧ m.defaultImpus = D :: Ds ∧
      tbl.Lists impi D) ∨
    cache.mappingGr w impi = (.notFound, none) ∧ ∀ D, ¬ tbl.Lists impi D := by
  obtain ⟨hcons, htable⟩ := h.localStore
  rw [MemcachedCache.mappingGr_eq_local fun hcell s hs => by
    have hremote := h s (List.mem_cons_of_mem _ hs)
    rw [hcons.mapping_eq_none_iff, htable] at hcell
    rwa [hremote.consistent.mapping_eq_none_iff, hremote.table]]
  cases hcell : (w.stores cache.localStore).mappings.cells impi with
  | none =>
    refine .inr ⟨ImpuStore.getImpiMapping_of_none hcell, ?_⟩
    rwa [hcons.mapping_eq_none_iff, htable] at hcell
  | some p =>
    obtain ⟨cas, blob⟩ := p
    cases blob with
    | corrupt => exact absurd (CasTable.value?_of_cells hcell) (hcons.decodable.mappings impi)
    | decoded m =>
      obtain ⟨D, Ds, hlist⟩ := List.exists_cons_of_ne_nil (hcons.leads impi cas m hcell)
      refine .inl ⟨_, D, Ds, ImpuStore.getImpiMapping_of_decoded hcell, hlist, ?_⟩
      rw [← htable, Table.lists_iff_maps hcons, maps_of_cells hcell, hlist]
      exact List.mem_cons_self

theorem ImpuStore.Represents.defaultOf_self {st : ImpuStore} (h : st.Represents dir tbl)
    {D : String} {r : Registration} (hr : tbl D = some r) : dir.defaultOf D = some D := by
  rw [← h.table] at hr
  obtain ⟨data, hdata, -⟩ := Option.map_eq_some_iff.mp hr
  exact (h.consistent.listed D data hdata).1

/-- What the lookup of a subscriber finds in the store `s`. -/
structure RecordOf (dir : Directory) (s : StoreId) (st : ImpuStore) (D : String) (d : DefaultImpu) :
    Prop where
  defaultOf : dir.defaultOf D = some D
  record : ∃ cas data, st.impus.cells D = some (cas, .decoded (.default data)) ∧
    d = data.fromData D cas s

/-- An IRS that was read from the record of a subscriber. -/
def FoundIn (dir : Directory) (s : StoreId) (st : ImpuStore) (D : String) (irs : Irs) : Prop :=
  ∃ d, RecordOf dir s st D d ∧ IsIrsOf irs d

theorem forall₂_foundIn {s : StoreId} {st : ImpuStore} {Ds : List String} {ds : List DefaultImpu}
    {irss : List Irs} (hrecords : List.Forall₂ (RecordOf dir s st) Ds ds)
    (hirss : List.Forall₂ IsIrsOf irss ds) : List.Forall₂ (FoundIn dir s st) Ds irss := by
  induction hrecords generalizing irss with
  | nil =>
    cases hirss
    exact .nil
  | cons hd _ ih =>
    cases hirss with
    | cons hirs hirss => exact .cons ⟨_, hd, hirs⟩ (ih hirss)

/-- The lookup of an identity of a subscriber with a registration. -/
theorem MemcachedCache.InSync.look_some (h : cache.InSync dir w tbl) {id D : String}
    {r : Registration} (hdir : dir.defaultOf id = some D) (hr : tbl D = some r) :
    ∃ d, cache.defaultImpuFor w id = (.ok, some d) ∧
      RecordOf dir cache.localStore (w.stores cache.localStore) D d := by
  rw [← h.localStore.table] at hr
  obtain ⟨d, hd, rfl⟩ := Option.map_eq_some_iff.mp hr
  obtain ⟨cas, hcell⟩ := CasTable.value?_eq_some.mp (ImpuStore.defaultAt_eq_some.mp hd)
  exact ⟨_, h.defaultImpuFor_some hdir hcell, h.localStore.defaultOf_self (h.localStore.table ▸ hr),
    cas, d, hcell, rfl⟩

/-- The lookup of an IMPI finds a subscriber whose registration lists it. -/
theorem MemcachedCache.InSync.firstFoundForImpi_cases (h : cache.InSync dir w tbl) (impi : String) :
    (∃ D d, firstFoundForImpi (cache.defaultImpuFor w) (cache.mappingGr w) impi = (.ok, [d]) ∧
      tbl.Lists impi D ∧
      RecordOf dir cache.localStore (w.stores cache.localStore) D d) ∨
    firstFoundForImpi (cache.defaultImpuFor w) (cache.mappingGr w) impi = (.notFound, []) ∧
      ∀ D, ¬ tbl.Lists impi D := by
  rcases h.mappingGr_cases impi with ⟨m, D, Ds, hmapping, hlist, hlists⟩ | ⟨hmapping, hnone⟩
  · obtain ⟨r, hr, himpi⟩ := hlists
    obtain ⟨d, hlook, hrecord⟩ := h.look_some (h.localStore.defaultOf_self hr) hr
    refine .inl ⟨D, d, ?_, ⟨r, hr, himpi⟩, hrecord⟩
    simp only [firstFoundForImpi, hmapping, hlist, firstFound, hlook]
  · refine .inr ⟨?_, hnone⟩
    simp only [firstFoundForImpi, hmapping]

/-- The lookups of several IMPIs find one subscriber for each that is listed. -/
theorem MemcachedCache.InSync.collect_firstFoundForImpi (h : cache.InSync dir w tbl)
    (impis : List String) :
    ∃ Ds ds, collect (firstFoundForImpi (cache.defaultImpuFor w) (cache.mappingGr w)) impis
        = (.ok, ds) ∧ tbl.OneForEach impis Ds ∧
      List.Forall₂ (RecordOf dir cache.localStore (w.stores cache.localStore)) Ds ds := by
  induction impis with
  | nil => exact ⟨[], [], rfl, .nil, .nil⟩
  | cons impi impis ih =>
    obtain ⟨Ds, ds, hrest, hone, hrecords⟩ := ih
    rcases h.firstFoundForImpi_cases impi with ⟨D, d, hfirst, hlists, hrecord⟩ | ⟨hfirst, hnone⟩
    · refine ⟨D :: Ds, d :: ds, ?_, .listed hlists hone, .cons hrecord hrecords⟩
      rw [collect_cons_ok (by rw [hfirst]; rfl) hrest, hfirst]
      rfl
    · refine ⟨Ds, ds, ?_, .unlisted hnone hone, hrecords⟩
      rw [collect_cons_ok (by rw [hfirst]; rfl) hrest, hfirst]
      rfl

/-- The lookups of several IMPUs find the first that leads to a registration. -/
theorem MemcachedCache.InSync.firstFound_eq (h : cache.InSync dir w tbl) (ids : List String) :
    ∃ ds, firstFound (cache.defaultImpuFor w) ids = (.ok, ds) ∧
      List.Forall₂ (RecordOf dir cache.localStore (w.stores cache.localStore))
        (dir.firstFound tbl ids) ds := by
  induction ids with
  | nil => exact ⟨[], rfl, .nil⟩
  | cons id ids ih =>
    cases hfind : dir.find tbl id with
    | none =>
      simp only [firstFound, h.defaultImpuFor_none hfind, Directory.firstFound, hfind]
      exact ih
    | some r =>
      obtain ⟨D, hdir, hr⟩ := Option.bind_eq_some_iff.mp hfind
      obtain ⟨d, hlook, hrecord⟩ := h.look_some hdir hr
      refine ⟨[d], ?_, ?_⟩
      · simp only [firstFound, hlook]
      · simp only [Directory.firstFound, hfind, hdir]
        exact .cons hrecord .nil

/-- `get_implicit_registration_sets_for_impis`. -/
theorem MemcachedCache.InSync.eval_getForImpis (h : cache.InSync dir w tbl) (impis : List String) :
    ∃ Ds irss w', Eval serve (cache.getImplicitRegistrationSetsForImpis impis []) w (.ok, irss) w' ∧
      w'.stores = w.stores ∧ tbl.OneForEach impis Ds ∧
      List.Forall₂ (FoundIn dir cache.localStore (w.stores cache.localStore)) Ds irss := by
  obtain ⟨Ds, ds, hcollect, hone, hrecords⟩ := h.collect_firstFoundForImpi impis
  obtain ⟨irss, w', he, hirss⟩ := cache.eval_getImplicitRegistrationSetsForImpis impis w
  rw [hcollect] at he hirss
  exact ⟨Ds, irss, w', he,
    stores_of_isLookup (only_getImplicitRegistrationSetsForImpis cache impis []) he, hone,
    forall₂_foundIn hrecords hirss⟩

/-- `get_implicit_registration_sets_for_impus`. -/
theorem MemcachedCache.InSync.eval_getForImpus (h : cache.InSync dir w tbl) (ids : List String) :
    ∃ irss w', Eval serve (cache.getImplicitRegistrationSetsForImpus ids []) w (.ok, irss) w' ∧
      w'.stores = w.stores ∧ List.Forall₂ (FoundIn dir cache.localStore (w.stores cache.localStore))
        (dir.firstFound tbl ids) irss := by
  obtain ⟨ds, hfirst, hrecords⟩ := h.firstFound_eq ids
  obtain ⟨irss, w', he, hstores, hirss⟩ := cache.eval_getImplicitRegistrationSetsForImpus ids w
  rw [hfirst] at he hirss
  exact ⟨irss, w', he, hstores, forall₂_foundIn hrecords hirss⟩

/-- `get_ims_subscription`: the subscription of an IMPI has one IRS. -/
theorem MemcachedCache.InSync.eval_getImsSubscription (h : cache.InSync dir w tbl) (impi : String) :
    (∃ D irs w', Eval serve (cache.getImsSubscription impi) w (.ok, some (.ofIrss [irs])) w' ∧
      w'.stores = w.stores ∧ tbl.Lists impi D ∧
      FoundIn dir cache.localStore (w.stores cache.localStore) D irs) ∨
    ∃ w', Eval serve (cache.getImsSubscription impi) w (.notFound, none) w' ∧ w'.stores = w.stores ∧
      ∀ D, ¬ tbl.Lists impi D := by
  have hmapping := cache.eval_getImpiMappingGr impi w
  rcases h.mappingGr_cases impi with ⟨m, D, Ds, hgr, hlist, hlists⟩ | ⟨hgr, hnone⟩
  · obtain ⟨r, hr, himpi⟩ := hlists
    obtain ⟨d, hlook, hrecord⟩ := h.look_some (h.localStore.defaultOf_self hr) hr
    obtain ⟨irss, w', he, hstores, hirss⟩ :=
      cache.eval_getImplicitRegistrationSetsForImpus m.defaultImpus w
    have hfirst : firstFound (cache.defaultImpuFor w) m.defaultImpus = (.ok, [d]) := by
      simp only [hlist, firstFound, hlook]
    rw [hfirst] at he hirss
    obtain ⟨irs, rfl⟩ : ∃ irs, irss = [irs] := by
      cases hirss with
      | cons _ hrest =>
        cases hrest
        exact ⟨_, rfl⟩
    obtain ⟨hirs, -⟩ := List.forall₂_cons.mp hirss
    rw [hgr] at hmapping
    exact .inl ⟨D, irs, w', hmapping.bind (he.bind (.ret _ _)), hstores, ⟨r, hr, himpi⟩, d, hrecord,
      hirs⟩
  · rw [hgr] at hmapping
    exact .inr ⟨w, hmapping.bind (.ret _ _), rfl, hnone⟩

end Lookups

/-! ### The delete of several IRSs -/

theorem FoundIn.readFor {dir : Directory} {s : StoreId} {st : ImpuStore} {tbl : Table} {D : String}
    {irs : Irs} (hst : st.Represents dir tbl) (h : FoundIn dir s st D irs) :
    ∃ r, tbl D = some r ∧ irs.ReadFor dir D r ∧ irs.registration = r := by
  obtain ⟨d, ⟨hdir, cas, data, hcell, rfl⟩, now, rfl⟩ := h
  have hd := ImpuStore.defaultAt_eq_some.mpr (CasTable.value?_of_cells hcell)
  refine ⟨data.registration, ?_, readFor_ofDefaultImpu hst.consistent hd cas s now,
    registration_ofDefaultImpu data D cas s now⟩
  rw [← hst.table, ImpuStore.table, hd]
  rfl

/-- An IRS for the subscriber `D` that a delete takes out of a store. -/
structure Irs.Deletes (irs : Irs) (dir : Directory) (tbl : Table) (D : String) : Prop
    extends irs.Covers dir D (tbl D) where
  defaultOf : dir.defaultOf D = some D
  existing : irs.existing = true

theorem FoundIn.deletes {dir : Directory} {s : StoreId} {st : ImpuStore} {tbl : Table} {D : String}
    {irs : Irs} (hst : st.Represents dir tbl) (h : FoundIn dir s st D irs) :
    irs.Deletes dir tbl D := by
  obtain ⟨r, hr, hread, -⟩ := h.readFor hst
  exact ⟨hr ▸ hread.covers, hst.defaultOf_self hr, hread.existing⟩

/-- It still deletes the subscriber when another one is gone, or this one. -/
theorem Irs.Deletes.update {irs : Irs} {dir : Directory} {tbl : Table} {D : String}
    (h : irs.Deletes dir tbl D) (E : String) : irs.Deletes dir (Function.update tbl E none) D := by
  refine ⟨⟨h.defaultImpu, h.associated, fun r hr => h.impis r ?_⟩, h.defaultOf, h.existing⟩
  by_cases hE : D = E
  · rw [hE, Function.update_self] at hr
    cases hr
  · rwa [Function.update_of_ne hE] at hr

theorem Table.without_cons (tbl : Table) (D : String) (Ds : List String) :
    tbl.without (D :: Ds) = Table.without (Function.update tbl D none) Ds := by
  funext E
  by_cases hE : E = D
  · simp [Table.without, hE]
  · simp [Table.without, hE]

/-- `delete_irss_action` takes the subscribers out of a store. One that is named twice is gone when
its turn comes again. -/
theorem ImpuStore.Represents.deleteAll {dir : Directory} {tbl₀ : Table} {s : StoreId}
    {Ds : List String}
    {irss : List Irs} {w : World} {tbl : Table} (hst : (w.stores s).Represents dir tbl)
    (hdeletes : List.Forall₂ (fun D irs => Irs.Deletes irs dir tbl D) Ds irss)
    (hfirst : List.Forall₂ (fun D irs => Irs.Deletes irs dir tbl₀ D) Ds irss) :
    ∃ irss' w', Eval serve (MemcachedCache.deleteIrssAction s irss .ok) w (.ok, irss') w' ∧
      (w'.stores s).Represents dir (tbl.without Ds) ∧
      List.Forall₂ (fun D irs => Irs.Deletes irs dir tbl₀ D) Ds irss' ∧
      ∀ s', s' ≠ s → w'.stores s' = w.stores s' := by
  induction irss generalizing Ds w tbl with
  | nil =>
    cases hdeletes
    exact ⟨[], w, .ret _ _, hst, .nil, fun _ _ => rfl⟩
  | cons irs irss ih =>
    cases hdeletes with
    | @cons D _ Ds _ hdelete hrest =>
      obtain ⟨hfirst, hrest₀⟩ := List.forall₂_cons.mp hfirst
      obtain ⟨irs', w₁, he, hst₁, hothers₁, hext, hdefault, hexisting⟩ :=
        hst.delete hdelete.defaultOf hdelete.toCovers
      obtain ⟨irss', w', he', hst', hrest', hothers'⟩ :=
        ih hst₁ (hrest.imp fun E irs hE => hE.update D) hrest₀
      refine ⟨irs' :: irss', w', ?_, ?_, .cons ⟨hfirst.toCovers.extend hext hdefault,
        hfirst.defaultOf, hexisting.trans hfirst.existing⟩ hrest',
        fun s' hs' => (hothers' s' hs').trans (hothers₁ s' hs')⟩
      · rw [deleteIrssAction_cons, if_pos hdelete.existing]
        exact he.bind (he'.bind (.ret _ _))
      · rw [Table.without_cons]
        exact hst'

/-- The delete of several IRSs on any store. -/
theorem updates_deleteIrssAction (dir : Directory) (tbl : Table) (Ds : List String) :
    Updates dir tbl (tbl.without Ds)
      (fun store irss => MemcachedCache.deleteIrssAction store irss .ok)
      fun irss => List.Forall₂ (fun D irs => Irs.Deletes irs dir tbl D) Ds irss where
  only s irss := only_deleteIrssAction s irss .ok
  acts s irss w hdeletes hst := by
    obtain ⟨irss', w', he, hst', hdeletes', hothers⟩ := hst.deleteAll hdeletes hdeletes
    exact ⟨irss', w', he, hdeletes', hst', hothers⟩

/-! ### Registration-Termination -/

/-- A lookup inside a task. -/
theorem eval_runLookup {α : Type} {p : CacheProg α} (hp : Only Call.IsLookup p) {n : Node} {a : α}
    {w' : World} (he : Eval serve p n.world a w') :
    Eval serveTask (runLookup p) n a { n with world := w' } :=
  eval_cacheProg (hp.mono fun _ h => h.ne_progressCb) he

namespace RegistrationTerminationTask

variable {cache : MemcachedCache} {dir : Directory} {tbl : Table} {rtr : Rtr}

/-- The program serves the RTR. -/
def Terminates (cache : MemcachedCache) (dir : Directory) (tbl : Table) (rtr : Rtr) (n : Node)
    (p : TaskProg Unit) : Prop :=
  ∃ n' w seen tbl', Eval serveTask p n () n' ∧ n.After w seen n' ∧ cache.InSync dir w tbl' ∧
    TerminationStep dir tbl rtr seen tbl'

theorem eval_notifySprout (hreason : rtr.HasReason) (n : Node) (Ds : List String) :
    ∃ sprout, Eval serveTask (notifySprout rtr Ds) n sprout (n.next.saw (rtr.notice Ds sprout)) := by
  refine ⟨(n.outside 0).sprout, ?_⟩
  unfold notifySprout Rtr.notice
  by_cases hpermanent : rtr.deregistrationReason = permanentTermination
  · rw [if_pos hpermanent, if_pos hpermanent]
    exact .call (.ret _ _)
  rw [if_neg hpermanent, if_neg hpermanent]
  by_cases hnew : rtr.deregistrationReason = newServerAssigned
  · rw [if_neg (by simp [hnew, newServerAssigned, removeScscf, serverChange]), if_pos hnew,
      decide_eq_false (by simpa using hnew)]
    exact .call (.ret _ _)
  · have hrest : rtr.deregistrationReason = removeScscf ∨ rtr.deregistrationReason = serverChange := by
      rcases hreason with h | h | h | h
      · exact absurd h hpermanent
      · exact .inl h
      · exact .inr h
      · exact absurd h hnew
    rw [if_pos hrest, decide_eq_true hnew]
    exact .call (.ret _ _)

/-- What the lookups have found is reported and deleted. -/
theorem terminates_success (hdistinct : cache.stores.Nodup) {n : Node}
    (hsync : cache.InSync dir n.world tbl) (hreason : rtr.HasReason) {Ds : List String}
    (hconcerns : rtr.Concerns dir tbl Ds) {irss : List Irs} (hirss : List.Forall₂
      (FoundIn dir cache.localStore (n.world.stores cache.localStore)) Ds irss) :
    Terminates cache dir tbl rtr n (getRegistrationSetsSuccess cache rtr irss) := by
  unfold getRegistrationSetsSuccess
  by_cases hnil : irss = []
  · subst hnil
    cases hirss
    exact ⟨_, n.world, _, tbl, .call (.call (.call (.ret _ _))), .saw n _, hsync,
      .nothing hreason hconcerns⟩
  · have hdeletes : List.Forall₂ (fun D irs => Irs.Deletes irs dir tbl D) Ds irss :=
      hirss.imp fun D irs hfound => hfound.deletes hsync.localStore
    have hdefaults : irss.map Irs.defaultImpu = Ds := by
      clear hnil hconcerns hirss
      induction hdeletes with
      | nil => rfl
      | cons hdelete _ ih => rw [List.map_cons, hdelete.defaultImpu, ih]
    have hne : Ds ≠ [] := by
      rintro rfl
      cases hirss
      exact hnil rfl
    obtain ⟨sprout, hnotify⟩ := eval_notifySprout hreason n Ds
    let n₁ := (n.next.saw (rtr.notice Ds sprout)).saw
      (.rta (if sprout = httpOk then .success else .failure) (impis rtr))
    have hafter : n.After n.world _ n₁ := ((Node.After.next n).trans (.saw _ _)).trans (.saw _ _)
    obtain ⟨n', w, _, he, hafter', rfl, hsync'⟩ :=
      (updates_deleteIrssAction dir tbl Ds).eval_operation hdistinct hdeletes (n := n₁) hsync
        (.deleteIrss irss) deleteRegSetsProgress (R := fun seen => seen = [])
        (fun m => ⟨m, [], .call (.ret _ _), .refl m, rfl⟩)
        deleteRegSetsSuccess deleteRegSetsFailure fun _ => .call (.call (.ret _ _))
    refine ⟨n', w, _, tbl.without Ds, ?_, hafter.trans hafter', hsync', ?_⟩
    · refine .call ?_
      rw [if_neg hnil, hdefaults]
      refine hnotify.bind (.call ?_)
      unfold HssCacheProcessor.deleteImplicitRegistrationSets
        MemcachedCache.deleteImplicitRegistrationSets
      exact he
    · rw [List.append_nil]
      exact .terminated Ds sprout hreason hne hconcerns

/-- The whole task. -/
theorem terminates_run (hdistinct : cache.stores.Nodup) {n : Node}
    (hsync : cache.InSync dir n.world tbl) (rtr : Rtr) :
    Terminates cache dir tbl rtr n (run cache rtr) := by
  have hfound : ∀ {w : World} {Ds irss}, w.stores = n.world.stores → rtr.HasReason →
      rtr.Concerns dir tbl Ds →
      List.Forall₂ (FoundIn dir cache.localStore (n.world.stores cache.localStore)) Ds irss →
      ∀ p, (∀ n', Eval serveTask (getRegistrationSetsSuccess cache rtr irss) { n with world := w } ()
        n' → Eval serveTask p n () n') → Terminates cache dir tbl rtr n p := by
    intro w Ds irss hstores hreason hconcerns hirss p hrun
    obtain ⟨n', w', seen, tbl', he, hafter, hsync', hstep⟩ :=
      terminates_success (n := { n with world := w }) hdistinct (hsync.of_stores hstores) hreason
        hconcerns (by rwa [hstores])
    exact ⟨n', w', seen, tbl', hrun n' he, (Node.After.withWorld n w).trans hafter, hsync', hstep⟩
  unfold run
  by_cases hnone : impus rtr = []
  · by_cases hreason : rtr.HasReason
    · rw [if_pos ⟨hnone, hreason⟩]
      obtain ⟨Ds, irss, w, he, hstores, hone, hirss⟩ := hsync.eval_getForImpis (impis rtr)
      refine hfound hstores hreason ?_ hirss _ fun n' hsuccess => ?_
      · rw [Rtr.Concerns, if_pos hnone]
        exact hone
      · exact (eval_addWork _ _).bind
          ((eval_runLookup (only_getImplicitRegistrationSetsForImpis cache _ []) he).bind hsuccess)
    · rw [if_neg fun h => hreason h.2, if_neg fun h => h.1 hnone]
      exact ⟨_, n.world, _, tbl, .call (.call (.ret _ _)), .saw n _, hsync, .noReason hreason⟩
  · rw [if_neg fun h => hnone h.1]
    by_cases hreason : rtr.HasReason
    · -- The other two reasons leave no IMPUs.
      have hboth : rtr.deregistrationReason = permanentTermination ∨
          rtr.deregistrationReason = removeScscf := by
        unfold impus at hnone
        split at hnone
        · rename_i hnot
          rcases hreason with h | h | h | h
          · exact .inl h
          · exact .inr h
          · exact absurd h hnot.1
          · exact absurd h hnot.2
        · exact absurd rfl hnone
      rw [if_pos ⟨hnone, hboth⟩]
      obtain ⟨irss, w, he, hstores, hirss⟩ := hsync.eval_getForImpus (impus rtr)
      refine hfound hstores hreason ?_ hirss _ fun n' hsuccess => ?_
      · rw [Rtr.Concerns, if_neg hnone]
      · exact (eval_addWork _ _).bind
          ((eval_runLookup (only_getImplicitRegistrationSetsForImpus cache _ []) he).bind hsuccess)
    · rw [if_neg fun h => hreason (h.2.elim .inl fun hr => .inr (.inl hr))]
      exact ⟨_, n.world, _, tbl, .call (.call (.ret _ _)), .saw n _, hsync, .noReason hreason⟩

end RegistrationTerminationTask

/-! ### Push-Profile -/

/-- The IRS with what the PPR has for it. -/
def Irs.pushed (irs : Irs) (px : XmlParser) (ppr : Ppr) : Irs :=
  ppr.chargingAddrs.elim (ppr.userData.elim irs (irs.setImsSubXml px))
    (ppr.userData.elim irs (irs.setImsSubXml px)).setChargingAddresses

theorem Irs.registration_pushed (irs : Irs) (px : XmlParser) (ppr : Ppr) :
    (irs.pushed px ppr).registration = irs.registration.pushed ppr := by
  unfold Irs.pushed Registration.pushed
  cases ppr.chargingAddrs <;> cases ppr.userData <;> rfl

section Pushed

variable {dir : Directory} {D : String} {irs : Irs} {r : Registration}

/-- An IRS that was read tracks the identities of its subscriber. -/
theorem Irs.ReadFor.tracksAll (h : irs.ReadFor dir D r) : irs.TracksAll dir D where
  defaultImpu := h.defaultImpu
  tracked k hne hdir := by
    rw [h.associated, if_pos ⟨hne, hdir⟩]
    exact .inr rfl
  untracked k hk := by
    rw [h.associated, if_neg]
    rintro ⟨hne, hdir⟩
    exact hk.elim hne fun hnot => hnot hdir

theorem Irs.Follows.setImsSubXml (h : irs.Follows r) (px : XmlParser) (xml : String) :
    (irs.setImsSubXml px xml).Follows r :=
  ⟨h.keeps, h.unchanged, h.registrationState, nofun, h.chargingAddresses⟩

theorem Irs.Follows.setChargingAddresses (h : irs.Follows r) (addresses : ChargingAddresses) :
    (irs.setChargingAddresses addresses).Follows r :=
  ⟨h.keeps, h.unchanged, h.registrationState, h.imsSubXml, nofun⟩

/-- The IRS of a subscriber after a push may be put. It is not refreshed, so what it does not
change is as the record has it. -/
theorem Irs.ReadFor.putsFor_pushed (hD : dir.defaultOf D = some D) (h : irs.ReadFor dir D r)
    {px : XmlParser} {ppr : Ppr}
    (hdefault : ∀ xml, ppr.userData = some xml → px.getDefaultId xml "" = D)
    (htruthful : ppr.Truthful dir px) : (irs.pushed px ppr).PutsFor dir D (some r) := by
  have hxml : (ppr.userData.elim irs (irs.setImsSubXml px)).TracksAll dir D ∧
      (ppr.userData.elim irs (irs.setImsSubXml px)).Follows r := by
    cases hdata : ppr.userData with
    | none => exact ⟨h.tracksAll, h.follows⟩
    | some xml =>
      exact ⟨h.prepared.setImsSubXml (htruthful xml hdata D (hdefault xml hdata) hD),
        h.follows.setImsSubXml px xml⟩
  have hpushed : (irs.pushed px ppr).TracksAll dir D ∧ (irs.pushed px ppr).Follows r := by
    unfold Irs.pushed
    cases ppr.chargingAddrs with
    | none => exact hxml
    | some addresses =>
      exact ⟨⟨hxml.1.defaultImpu, hxml.1.tracked, hxml.1.untracked⟩, hxml.2.setChargingAddresses _⟩
  have hsame : (irs.pushed px ppr).impis = irs.impis ∧
      (irs.pushed px ppr).existing = irs.existing := by
    unfold Irs.pushed
    cases ppr.chargingAddrs <;> cases ppr.userData <;> exact ⟨rfl, rfl⟩
  refine ⟨hpushed.1, fun impi => hsame.1 ▸ h.notDeleted impi, .inl ⟨?_, r, rfl, hpushed.2⟩⟩
  rw [hsame.2, h.existing]

end Pushed

/-- The subscription has the IRS of `D`, and no other. -/
def ImsSubscription.IsOnly (sub : ImsSubscription) (D : String) (irs : Irs) : Prop :=
  ∀ key : String, sub[key]? = if key = D then some irs else none

namespace ImsSubscription.IsOnly

variable {sub : ImsSubscription} {D : String} {irs : Irs}

theorem ofIrss (hD : irs.defaultImpu = D) : IsOnly (.ofIrss [irs]) D irs := by
  subst hD
  exact getIrsForDefaultImpu_singleton irs

theorem insert (h : IsOnly sub D irs) (irs' : Irs) : IsOnly (sub.insert D irs') D irs' := by
  intro key
  rw [ImsSubscription.getElem?_insert, h key]
  split <;> rfl

theorem setChargingAddrs (h : IsOnly sub D irs) (addresses : ChargingAddresses) :
    IsOnly (ImsSubscription.setChargingAddrs sub addresses) D (irs.setChargingAddresses addresses) := by
  intro key
  unfold ImsSubscription.setChargingAddrs
  rw [Std.ExtTreeMap.getElem?_map, h key]
  split <;> rfl

theorem toList (h : IsOnly sub D irs) : sub.toList = [(D, irs)] := by
  have hmem : ∀ p, p ∈ sub.toList ↔ p = (D, irs) := by
    rintro ⟨key, irs'⟩
    rw [Std.ExtTreeMap.mem_toList_iff_getElem?_eq_some, h key]
    split
    · rename_i hkey
      simp [hkey, eq_comm]
    · rename_i hkey
      simp [hkey]
  have hdistinct := sub.distinct_keys_toList
  cases hlist : sub.toList with
  | nil =>
    have := (hmem (D, irs)).mpr rfl
    rw [hlist] at this
    cases this
  | cons p rest =>
    rw [hlist] at hmem hdistinct
    obtain rfl := (hmem p).mp List.mem_cons_self
    cases rest with
    | nil => rfl
    | cons q rest =>
      -- A second entry would have the same key.
      obtain rfl := (hmem q).mp (List.mem_cons_of_mem _ List.mem_cons_self)
      exact absurd Std.ReflCmp.compare_self
        ((List.pairwise_cons.mp hdistinct).1 _ List.mem_cons_self)

end ImsSubscription.IsOnly

namespace PushProfileTask

variable {px : XmlParser} {cache : MemcachedCache} {dir : Directory} {tbl : Table} {ppr : Ppr}

/-- The put of a subscription with one IRS, on any store. -/
theorem updates_putImsSubAction {D : String} (hD : dir.defaultOf D = some D) (tbl : Table)
    (r : Registration) :
    Updates dir tbl (Function.update tbl D (some r)) MemcachedCache.putImsSubAction
      fun sub => ∃ irs, sub.IsOnly D irs ∧ irs.PutsFor dir D (tbl D) ∧ irs.registration = r where
  only s sub := only_putImsSubAction s sub
  acts s sub w := by
    rintro ⟨irs, hsub, hputs, rfl⟩ hst
    obtain ⟨ttl, w', he, hst', hothers⟩ := hst.put hD hputs
    refine ⟨sub.insert D (irs.withTtl ttl), w', ?_, ⟨_, hsub.insert _, hputs.withTtl ttl,
      irs.registration_withTtl ttl⟩, hst', hothers⟩
    unfold MemcachedCache.putImsSubAction
    rw [hsub.toList]
    refine Eval.bind (a := sub.insert D (irs.withTtl ttl)) ?_ (.ret _ _)
    exact Eval.bind (a := sub.insert D (irs.withTtl ttl)) (he.bind (.ret _ _)) (.ret _ _)

/-- The put of the subscription, with the answer to the PPR. -/
theorem eval_putImsSubscription (hdistinct : cache.stores.Nodup) {sub : ImsSubscription}
    {D : String} {irs : Irs} (hsub : sub.IsOnly D irs) (hD : dir.defaultOf D = some D)
    (hputs : irs.PutsFor dir D (tbl D)) {n : Node} (hsync : cache.InSync dir n.world tbl) :
    ∃ n' w, Eval serveTask (HssCacheProcessor.putImsSubscription cache onSaveImsSubSuccess
        onSaveImsSubProgress onSaveImsSubFailure sub) n () n' ∧ n.After w [.ppa .success] n' ∧
      cache.InSync dir w (Function.update tbl D (some irs.registration)) := by
  unfold HssCacheProcessor.putImsSubscription MemcachedCache.putImsSubscription
  obtain ⟨n', w, _, he, hafter, rfl, hsync'⟩ :=
    (updates_putImsSubAction hD tbl irs.registration).eval_operation hdistinct
      ⟨irs, hsub, hputs, rfl⟩ hsync (.putImsSubscription sub) onSaveImsSubProgress
      (R := fun seen => seen = [.ppa .success])
      (fun m => ⟨_, _, .call (.call (.ret _ _)), .saw m _, rfl⟩) onSaveImsSubSuccess
      onSaveImsSubFailure fun _ => .call (.call (.ret _ _))
  exact ⟨n', w, he, hafter, hsync'⟩

/-- The program serves the PPR. -/
def Pushes (px : XmlParser) (cache : MemcachedCache) (dir : Directory) (tbl : Table) (ppr : Ppr)
    (n : Node) (p : TaskProg Unit) : Prop :=
  ∃ n' w seen tbl', Eval serveTask p n () n' ∧ n.After w seen n' ∧ cache.InSync dir w tbl' ∧
    PushStep px tbl ppr seen tbl'

/-- The end of the task: the charging addresses and the put. -/
theorem eval_saveImsSub (hdistinct : cache.stores.Nodup) {sub : ImsSubscription} {D : String}
    {irs : Irs} (hsub : sub.IsOnly D irs) (hD : dir.defaultOf D = some D)
    (hputs : (ppr.chargingAddrs.elim irs irs.setChargingAddresses).PutsFor dir D (tbl D)) {n : Node}
    (hsync : cache.InSync dir n.world tbl) :
    ∃ n' w, Eval serveTask (saveImsSub cache ppr sub) n () n' ∧ n.After w [.ppa .success] n' ∧
      cache.InSync dir w (Function.update tbl D
        (some (ppr.chargingAddrs.elim irs irs.setChargingAddresses).registration)) := by
  unfold saveImsSub
  cases haddresses : ppr.chargingAddrs with
  | none =>
    rw [haddresses] at hputs
    exact eval_putImsSubscription hdistinct hsub hD hputs hsync
  | some addresses =>
    rw [haddresses] at hputs
    exact eval_putImsSubscription hdistinct (hsub.setChargingAddrs addresses) hD hputs hsync

/-- A document, which is for the subscriber that the lookup has found or for another one. -/
theorem pushes_document (hdistinct : cache.stores.Nodup) {n : Node}
    (hsync : cache.InSync dir n.world tbl) {sub : ImsSubscription} {D xml : String} {irs : Irs}
    {r : Registration} (hsub : sub.IsOnly D irs) (hxml : ppr.userData = some xml)
    (hr : tbl D = some r) (himpi : ppr.impi ∈ r.impis) (hD : dir.defaultOf D = some D)
    (hput : px.getDefaultId xml "" = D → (irs.pushed px ppr).PutsFor dir D (tbl D))
    (hpushed : (irs.pushed px ppr).registration = r.pushed ppr) :
    Pushes px cache dir tbl ppr n (onGetImsSubSuccess px cache ppr sub) := by
  have hget := hsub (px.getDefaultId xml "")
  unfold onGetImsSubSuccess
  rw [hxml]
  by_cases hdefault : px.getDefaultId xml "" = D
  · have hput := hput hdefault
    unfold Irs.pushed at hput hpushed
    rw [hxml, Option.elim_some] at hput hpushed
    subst hdefault
    rw [if_pos rfl] at hget
    have hafter : n.After n.world _ (n.next.saw
        (.changeAssociatedIdentities (px.getDefaultId xml "") xml (n.outside 0).sprout)) :=
      (Node.After.next n).trans (.saw _ _)
    by_cases hsprout : (n.outside 0).sprout = httpOk
    · obtain ⟨n', w, hrun, hafter', hsync'⟩ := eval_saveImsSub (n := n.next.saw _) hdistinct
        (hsub.insert (irs.setImsSubXml px xml)) hD hput hsync
      refine ⟨n', w, _, _, .call ?_, hafter.trans hafter', hsync', ?_⟩
      · simp only [ImsSubscription.getIrsForDefaultImpu, hget]
        refine .call ?_
        show Eval serveTask (if (n.outside 0).sprout ≠ httpOk then _ else _) _ _ _
        rw [if_neg (not_not_intro hsprout)]
        exact hrun
      · rw [hpushed, hsprout]
        exact .profile _ xml r hr himpi hxml rfl
    · -- Sprout has refused the document, and nothing is put.
      refine ⟨_, n.world, _, tbl, .call ?_, hafter.trans (.saw _ _), hsync,
        .refused _ xml (n.outside 0).sprout ⟨r, hr, himpi⟩ hxml rfl hsprout⟩
      simp only [ImsSubscription.getIrsForDefaultImpu, hget]
      refine .call ?_
      show Eval serveTask (if (n.outside 0).sprout ≠ httpOk then _ else _) _ _ _
      rw [if_pos hsprout]
      exact .call (.call (.ret _ _))
  · rw [if_neg hdefault] at hget
    refine ⟨_, n.world, _, tbl, .call ?_, .saw n _, hsync,
      .otherDefault D xml ⟨r, hr, himpi⟩ hxml hdefault⟩
    simp only [ImsSubscription.getIrsForDefaultImpu, hget]
    exact .call (.call (.ret _ _))

/-- What the lookup has found is pushed. -/
theorem pushes_success (hdistinct : cache.stores.Nodup) {n : Node}
    (hsync : cache.InSync dir n.world tbl) (htruthful : ppr.Truthful dir px)
    (hsome : ppr.chargingAddrs ≠ none ∨ ppr.userData ≠ none) {D : String}
    (hlists : tbl.Lists ppr.impi D) {irs : Irs}
    (hfound : FoundIn dir cache.localStore (n.world.stores cache.localStore) D irs) :
    Pushes px cache dir tbl ppr n (onGetImsSubSuccess px cache ppr (.ofIrss [irs])) := by
  obtain ⟨r, hr, hread, hregistration⟩ := hfound.readFor hsync.localStore
  have hD := hsync.localStore.defaultOf_self hr
  have himpi : ppr.impi ∈ r.impis := by
    obtain ⟨r', hr', himpi⟩ := hlists
    rw [hr] at hr'
    cases hr'
    exact himpi
  have hsub := ImsSubscription.IsOnly.ofIrss hread.defaultImpu
  have hput : (∀ xml, ppr.userData = some xml → px.getDefaultId xml "" = D) →
      (irs.pushed px ppr).PutsFor dir D (tbl D) :=
    fun hdefault => hr ▸ hread.putsFor_pushed hD hdefault htruthful
  have hpushed : (irs.pushed px ppr).registration = r.pushed ppr := by
    rw [Irs.registration_pushed, hregistration]
  cases hxml : ppr.userData with
  | none =>
    have hput := hput (by simp [hxml])
    unfold Irs.pushed at hput hpushed
    rw [hxml, Option.elim_none] at hput hpushed
    obtain ⟨n', w, hrun, hafter, hsync'⟩ := eval_saveImsSub hdistinct hsub hD hput hsync
    unfold onGetImsSubSuccess
    rw [hxml]
    refine ⟨n', w, _, _, .call hrun, hafter, hsync', ?_⟩
    rw [hpushed]
    exact .addresses D r hr himpi hxml (hsome.resolve_right (by simp [hxml]))
  | some xml =>
    refine pushes_document hdistinct hsync hsub hxml hr himpi hD (fun hdefault => hput ?_) hpushed
    intro xml' hxml'
    rw [hxml] at hxml'
    cases hxml'
    exact hdefault

/-- The whole task. -/
theorem pushes_run (hdistinct : cache.stores.Nodup) {n : Node}
    (hsync : cache.InSync dir n.world tbl) (htruthful : ppr.Truthful dir px) :
    Pushes px cache dir tbl ppr n (run px cache ppr) := by
  unfold run
  by_cases hnothing : ppr.chargingAddrs = none ∧ ppr.userData = none
  · rw [if_pos hnothing]
    exact ⟨_, n.world, _, tbl, .call (.call (.ret _ _)), .saw n _, hsync, .nothing hnothing⟩
  rw [if_neg hnothing]
  have hsome : ppr.chargingAddrs ≠ none ∨ ppr.userData ≠ none := by
    by_contra hnot
    exact hnothing (not_or.mp hnot |>.imp not_not.mp not_not.mp)
  rcases hsync.eval_getImsSubscription ppr.impi with
    ⟨D, irs, w, he, hstores, hlists, hfound⟩ | ⟨w, he, hstores, hnone⟩
  · have hsuccess : Pushes px cache dir tbl ppr { n with world := w }
        (onGetImsSubSuccess px cache ppr (.ofIrss [irs])) :=
      pushes_success (D := D) hdistinct (hsync.of_stores hstores) htruthful hsome hlists
        (by rwa [hstores])
    obtain ⟨n', w', seen, tbl', hrun, hafter, hsync', hstep⟩ := hsuccess
    refine ⟨n', w', seen, tbl', ?_, (Node.After.withWorld n w).trans hafter, hsync', hstep⟩
    exact (eval_addWork _ _).bind
      ((eval_runLookup (only_getImsSubscription cache _) he).bind hrun)
  · exact ⟨_, w, _, tbl, (eval_addWork _ _).bind
      ((eval_runLookup (only_getImsSubscription cache _) he).bind (.call (.call (.call (.ret _ _))))),
      (Node.After.withWorld n w).trans (.saw _ _), hsync.of_stores hstores, .unlisted hsome hnone⟩

end PushProfileTask

end Homestead

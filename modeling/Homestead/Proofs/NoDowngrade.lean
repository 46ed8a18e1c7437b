import Homestead.Proofs.Concurrent
import Homestead.Proofs.Setters

/-!
# `Homestead.Proofs.NoDowngrade`: a registered subscriber stays registered

Any number of registrations, calls and profile pushes for the IRS with the default IMPU `D`
run against one store, interleaved call by call. Once the record at `D` is registered, no
later write takes that back: a blind write is of a registered IRS, an add fails on a record
that is there, and a compare-and-set write has merged the state it overwrites.

* `safe_client` is the rely-guarantee proof of one client.
* `registered_stays_registered` is the result for every schedule.

The record at `D` must not list `D` among its own associated IMPUs. Otherwise a refreshed
put writes an associated record over it, and `registered_lost_by_self_listing` is such a run.
-/

set_option autoImplicit false

namespace Homestead

open CacheProg

/-- The record at `D` is a default IMPU with the state `REGISTERED`. -/
def ImpuStore.RegisteredAt (st : ImpuStore) (D : String) : Prop :=
  (st.defaultAt D).map DefaultImpuData.registrationState = some true

instance (st : ImpuStore) (D : String) : Decidable (st.RegisteredAt D) :=
  inferInstanceAs (Decidable (_ = _))

/-- The record at `D` does not list `D` as one of its associated IMPUs. -/
def ImpuStore.SelfFree (st : ImpuStore) (D : String) : Prop :=
  ∀ d, st.defaultAt D = some d → D ∉ d.assocImpu

section

variable (s : StoreId) (D : String)

/-- What every call of every client keeps of the record at `D`. -/
structure KeepsRecord (w w' : World) : Prop where
  selfFree : (w.stores s).SelfFree D → (w'.stores s).SelfFree D
  registered : (w.stores s).RegisteredAt D → (w'.stores s).RegisteredAt D

/-- The contract of a client. -/
def noDowngrade : Contract Call Call.Resp World where
  rely w w' := CasTable.Later (w.stores s).impus (w'.stores s).impus ∧
    CasTable.Later (w.stores s).mappings (w'.stores s).mappings ∧ KeepsRecord s D w w'
  assume _ _ _ := True
  guar _ w o := KeepsRecord s D w (serve o w).2
  rely_refl _ := ⟨.refl _, .refl _, id, id⟩
  rely_trans h₁ h₂ := ⟨h₁.1.trans h₂.1, h₁.2.1.trans h₂.2.1,
    fun h => h₂.2.2.1 (h₁.2.2.1 h), fun h => h₂.2.2.2 (h₁.2.2.2 h)⟩

end

variable {s : StoreId} {D : String}

/-- A call on another key keeps the record at `D`. -/
theorem keepsRecord_of_impuKey {o : Call} (w : World) (h : o.impuKey ≠ some (s, D)) :
    KeepsRecord s D w (serve o w).2 := by
  have hdefault := ImpuStore.defaultAt_congr (serve_impus_cells w h)
  refine ⟨fun hfree d hd => hfree d (hdefault ▸ hd), fun hreg => ?_⟩
  unfold ImpuStore.RegisteredAt
  rw [hdefault]
  exact hreg

/-- A write of a record for `D` that does not list `D`, and that is registered unless the
record it replaces is not. -/
theorem keepsRecord_put (w : World) (d : DefaultImpuData) (hself : D ∉ d.assocImpu)
    (hreg : (w.stores s).RegisteredAt D → d.registrationState = true) :
    KeepsRecord s D w
      (w.setImpus s ((w.stores s).impus.put D (.decoded (.default d)))) := by
  have hdefault := defaultAt_setImpus_put w s D d
  refine ⟨fun _ d' hd' => ?_, fun h => ?_⟩
  · rw [hdefault] at hd'
    cases hd'
    exact hself
  · unfold ImpuStore.RegisteredAt
    rw [hdefault, Option.map_some, hreg h]

theorem keepsRecord_refl (w : World) : KeepsRecord s D w w := ⟨id, id⟩

theorem readsFree_noDowngrade : ReadsFree (noDowngrade s D) := by
  intro hs w o ho
  refine keepsRecord_of_impuKey w ?_
  rw [ho.keys.1]
  nofun

theorem relyLater_noDowngrade : RelyLater (noDowngrade s D) s :=
  ⟨fun h => h.1, fun h => h.2.1⟩

/-! ### One client -/

/-- What a client keeps of an existing IRS for `D`: if its state was set, it is registered. -/
structure Upgrading (D : String) (irs : Irs) : Prop extends IsFor D irs where
  registered : irs.registrationStateSet = true → irs.registrationState = .registered

/-- The IRS may be written with the CAS value `c`: it is registered, or whatever has the
version `c` is not. -/
def MayWrite (s : StoreId) (D : String) (irs : Irs) (c : Nat) (w : World) : Prop :=
  irs.registrationState = .registered ∨ c = 0 ∨
    ∃ v, CasTable.Seen (w.stores s).impus D c v ∧
      ∀ d, v = .decoded (.default d) → d.registrationState = false

theorem MayWrite.later {irs : Irs} {c : Nat} {w w' : World} (h : MayWrite s D irs c w)
    (hl : CasTable.Later (w.stores s).impus (w'.stores s).impus) : MayWrite s D irs c w' := by
  obtain hreg | hzero | ⟨v, hseen, hv⟩ := h
  · exact .inl hreg
  · exact .inr (.inl hzero)
  · exact .inr (.inr ⟨v, hseen.later hl, hv⟩)

/-- A compare-and-set write that succeeds over a registered record is of a registered IRS. -/
theorem MayWrite.registered {irs : Irs} {c : Nat} {w : World} (h : MayWrite s D irs c w)
    (hv : (w.stores s).impus.version D = c) (hreg : (w.stores s).RegisteredAt D) :
    irs.registrationState = .registered := by
  obtain ⟨d, hd, hdreg⟩ := Option.map_eq_some_iff.mp hreg
  obtain ⟨c', hcell⟩ := CasTable.value?_eq_some.mp (ImpuStore.defaultAt_eq_some.mp hd)
  rw [CasTable.version_of_cells hcell] at hv
  subst hv
  obtain h | hzero | ⟨v, hseen, hnot⟩ := h
  · exact h
  · have := ((w.stores s).impus.fresh D c' _ hcell).1
    omega
  · have := hnot d (hseen.same _ hcell).symm
    rw [hdreg] at this
    cases this

/-- The merge with a stored record that does not list `D`. -/
theorem Upgrading.merge {irs : Irs} (h : Upgrading D irs) {d : DefaultImpu} (now : Int)
    (hself : D ∉ d.associatedImpus) : Upgrading D (irs.updateFromImpuFromStore d now) where
  toIsFor := h.toIsFor.merge now hself
  registered hset := by
    have hset : irs.registrationStateSet = true := hset
    show (if irs.registrationStateSet then irs.registrationState else d.registrationState) = _
    rw [hset]
    exact h.registered hset

/-- An IRS whose state comes from the record with the CAS value `c` may be written with it. -/
theorem mayWrite_of_cells {irs : Irs} {w : World} {c : Nat} {d : DefaultImpuData}
    (hcell : (w.stores s).impus.cells D = some (c, .decoded (.default d)))
    (hstate : d.registrationState = true → irs.registrationState = .registered) :
    MayWrite s D irs c w := by
  cases hd : d.registrationState with
  | true => exact .inl (hstate hd)
  | false =>
    refine .inr (.inr ⟨_, .of_cells hcell, ?_⟩)
    rintro d' ⟨⟩
    exact hd

theorem updateRule_noDowngrade : UpdateRule (noDowngrade s D) s
    (fun irs _ w => Upgrading D irs ∧ (w.stores s).SelfFree D)
    (fun irs c _ w => MayWrite s D irs c w)
    (fun irs _ w => Upgrading D irs ∧ (w.stores s).SelfFree D) True where
  keep irs :=
    { rely := fun h hr => ⟨h.1, hr.2.2.selfFree h.2⟩
      time := fun h => h }
  fresh irs c :=
    { rely := fun h hr => h.later hr.1
      time := fun h => h }
  done h hr := ⟨h.1, hr.2.2.selfFree h.2⟩
  absent _ h _ _ _ := ⟨h, .inr (.inl rfl)⟩
  merge := by
    rintro irs hs w d o rfl ⟨hup, hfree⟩ _ _ hd now
    obtain ⟨cas, data, hcell, hdata⟩ := ImpuStore.cells_of_getImpu hd
    rw [hup.defaultImpu] at hcell
    cases data with
    | associated D' e => cases hdata
    | default d' =>
      cases hdata
      have hself : D ∉ d'.assocImpu :=
        hfree d' (ImpuStore.defaultAt_eq_some.mpr (CasTable.value?_of_cells hcell))
      -- A state that no setter has set is that of the record.
      refine ⟨⟨hup.merge now hself, hfree⟩, mayWrite_of_cells hcell fun hreg => ?_⟩
      show (if irs.registrationStateSet then irs.registrationState
        else if d'.registrationState then _ else _) = _
      rw [hreg]
      split
      · rename_i hset
        exact hup.registered hset
      · rfl
  replace := by
    rintro irs hs w a o rfl h _ _ ha _
    obtain ⟨cas, data, hcell, hdata⟩ := ImpuStore.cells_of_getImpu ha
    rw [h.1.defaultImpu] at hcell
    cases data with
    | default d' => cases hdata
    | associated D' e =>
      cases hdata
      exact ⟨h, .inr (.inr ⟨_, .of_cells hcell, nofun⟩)⟩
  blocked _ _ _ := trivial
  write := by
    rintro irs hs w c store now o rfl ⟨hup, hfree⟩ hmay _
    have hkeeps : KeepsRecord s D w
        (serve (.setImpu s (.default (irs.createImpu c store now))) w).2 := by
      rcases serve_setImpu_cases w s (.default (irs.createImpu c store now)) with
        ⟨hv, -, hworld⟩ | ⟨-, -, hworld⟩
      · rw [hworld]
        have hkey : (Impu.default (irs.createImpu c store now)).impu = D := hup.defaultImpu
        rw [hkey] at hv ⊢
        refine keepsRecord_put w _ hup.notMem fun hreg => ?_
        exact decide_eq_true (hmay.registered hv hreg)
      · rw [hworld]
        exact keepsRecord_refl w
    exact ⟨hkeeps, fun _ => ⟨hup, hkeeps.selfFree hfree⟩, fun _ => ⟨hup, hfree⟩⟩

/-- A call on another key keeps the contract and the invariant of the later operations. -/
theorem keeps_selfFree {o : Call} {w : World} (h : o.impuKey ≠ some (s, D))
    (hfree : (w.stores s).SelfFree D) (hs : History) :
    (noDowngrade s D).guar hs w o ∧ ((serve o w).2.stores s).SelfFree D :=
  ⟨keepsRecord_of_impuKey w h, (keepsRecord_of_impuKey w h).selfFree hfree⟩

theorem stable_selfFree : Stable (noDowngrade s D) fun _ w => (w.stores s).SelfFree D where
  rely h hr := hr.2.2.selfFree h
  read h ho := (readsFree_noDowngrade [] _ _ ho).selfFree h

/-- The first operation of a put of a new IRS. -/
theorem safe_create_noDowngrade {irs : Irs} {hs : History} {w : World} (hup : IsFor D irs)
    (hfree : (w.stores s).SelfFree D) :
    Safe serve (noDowngrade s D) (fun r _ w' => r = .ok ∧ (w'.stores s).SelfFree D)
      (createIrsImpu irs s) hs w := by
  refine safe_createIrsImpu (R := fun _ w => (w.stores s).SelfFree D) readsFree_noDowngrade
    stable_selfFree (fun h hr => hr.2.2.selfFree h) ?_ ?_ hfree
  · rintro hs w now o hreg rfl hfree -
    have hkey : (Impu.default (irs.createImpu 0 none now)).impu = D := hup.defaultImpu
    have hkeeps : KeepsRecord s D w
        (serve (.setImpuWithoutCas s (.default (irs.createImpu 0 none now))) w).2 := by
      show KeepsRecord s D w (w.setImpus s ((w.stores s).impus.put (Impu.impu _) _))
      rw [hkey]
      exact keepsRecord_put w _ hup.notMem fun _ => decide_eq_true hreg
    exact ⟨hkeeps, hkeeps.selfFree hfree⟩
  · rintro hs w now o - rfl hfree -
    have hkeeps : KeepsRecord s D w
        (serve (.addImpu s (.default (irs.createImpu 0 none now))) w).2 := by
      rcases serve_addImpu_cases w s (.default (irs.createImpu 0 none now)) with
        ⟨hv, -, hworld⟩ | ⟨-, -, hworld⟩
      · have hkey : (Impu.default (irs.createImpu 0 none now)).impu = D := hup.defaultImpu
        rw [hworld]
        rw [hkey] at hv ⊢
        -- An add succeeds only where there is no record.
        refine keepsRecord_put w _ hup.notMem fun hreg => ?_
        have hmay : MayWrite s D irs 0 w := .inr (.inl rfl)
        exact decide_eq_true (hmay.registered hv hreg)
      · rw [hworld]
        exact keepsRecord_refl w
    exact ⟨hkeeps, hkeeps.selfFree hfree⟩

/-- The put of an IRS for `D`, new or existing. -/
theorem safe_put_noDowngrade {irs : Irs} {hs : History} {w : World} (hfor : IsFor D irs)
    (hfree : (w.stores s).SelfFree D)
    (hexisting : irs.existing = true → Upgrading D irs ∧ MayWrite s D irs irs.cas w) :
    Safe serve (noDowngrade s D) (fun _ _ _ => True) (putIrsAction irs s) hs w := by
  let R : Irs → History → World → Prop := fun irs _ w => IsFor D irs ∧ (w.stores s).SelfFree D
  have hfirst : Safe serve (noDowngrade s D)
      (fun r hs' w' => r.1 = .ok ∧ R r.2 hs' w' ∨ r.1 ≠ .ok ∧ True) (putIrsImpu irs s) hs w := by
    unfold putIrsImpu
    split
    · rename_i hex
      obtain ⟨hup, hmay⟩ := hexisting hex
      refine (safe_updateIrsImpu readsFree_noDowngrade updateRule_noDowngrade ⟨hup, hfree⟩
        fun _ => hmay).weaken ?_
      rintro r hs' w' (⟨hok, hup', hfree'⟩ | ⟨herr, -⟩)
      · exact .inl ⟨hok, hup'.toIsFor, hfree'⟩
      · exact .inr ⟨by rw [herr]; nofun, trivial⟩
    · exact (safe_create_noDowngrade hfor hfree).bind fun status hs' w' hq =>
        .ret fun w'' hr => .inl ⟨(hq w'' hr).1, hfor, (hq w'' hr).2⟩
  refine (safe_putIrsAction (T := fun _ _ _ => True) (E := fun _ _ _ => True) hfirst ?_).weaken
    fun _ _ _ _ => trivial
  rintro irs' hs' w' ⟨hfor', hfree'⟩
  exact (safe_laterOperations (A := fun _ w => (w.stores s).SelfFree D) readsFree_noDowngrade
    relyLater_noDowngrade hfor'.untracked (fun h hr => hr.2.2.selfFree h)
    (fun hkey h => keeps_selfFree hkey h _) hfree').weaken fun _ _ _ _ => trivial

/-- What a lookup knows of a record at `D`. -/
def Downgradable (s : StoreId) (D : String) (d : DefaultImpu) (w : World) : Prop :=
  d.impu = D → D ∉ d.associatedImpus ∧ (d.registrationState = .registered ∨
    ∃ v, CasTable.Seen (w.stores s).impus D d.cas v ∧
      ∀ d', v = .decoded (.default d') → d'.registrationState = false)

theorem readRule_noDowngrade : ReadRule (noDowngrade s D) s
    (fun _ w => (w.stores s).SelfFree D) (fun d _ w => Downgradable s D d w) where
  stable := stable_selfFree
  found := by
    intro hs w impu d hfree _ hd hD
    obtain ⟨cas, data, hcell, hdata⟩ := ImpuStore.cells_of_getImpu hd
    cases data with
    | associated D' e => cases hdata
    | default d' =>
      cases hdata
      subst hD
      refine ⟨hfree d' (ImpuStore.defaultAt_eq_some.mpr (CasTable.value?_of_cells hcell)), ?_⟩
      cases hreg : d'.registrationState with
      | true => exact .inl (by simp [DefaultImpuData.fromData, hreg])
      | false =>
        refine .inr ⟨_, .of_cells hcell, ?_⟩
        rintro d'' ⟨⟩
        exact hreg
  rely := by
    intro d hs w w' h hr hD
    obtain ⟨hself, hreg | ⟨v, hseen, hv⟩⟩ := h hD
    · exact ⟨hself, .inl hreg⟩
    · exact ⟨hself, .inr ⟨v, hseen.later hr.1, hv⟩⟩
  time h := h

/-- The setters of a registration, a call or a profile push, by what they do to the
registration state. -/
theorem Request.setters_regState (req : Request) (hreq : req.updates = true) :
    ∀ state, lastRegState req.setters = some state → state = .registered := by
  cases req with
  | call addresses xml ttl => cases hreq
  | reg impi addresses xml ttl =>
    intro state hstate
    cases impi <;> cases hstate <;> rfl
  | ppr xml addresses =>
    intro state hstate
    cases xml <;> cases addresses <;> cases hstate

/-- A request that creates an IRS sets its document. -/
theorem Request.exists_imsSubXml (req : Request) (hreq : req.creates = true) :
    ∃ xml, Setter.setImsSubXml xml ∈ req.setters := by
  cases req with
  | reg impi addresses xml ttl => exact ⟨xml, by simp [setters, regSetters]⟩
  | call addresses xml ttl => exact ⟨xml, by simp [setters, callSetters]⟩
  | ppr xml addresses => cases hreq

variable {px : XmlParser} {cache : MemcachedCache}

/-- One request for the IRS with the default IMPU `D`, among any number of others. -/
theorem safe_client_noDowngrade (hremote : cache.remoteStores = []) {req : Request}
    (hxml : KeepsDefault req.setters px D) (l : Lookup) (ttl : Int) (state : RegistrationState)
    {hs : History} {w : World} (hfree : (w.stores cache.localStore).SelfFree D) :
    Safe serve (noDowngrade cache.localStore D) (fun _ _ _ => True)
      ((req.client l ttl state).run px cache D) hs w := by
  refine safe_client hremote readsFree_noDowngrade readRule_noDowngrade ?_ ?_
    (fun _ => trivial) hfree
  · intro irs hs w setters hsetters hD hbuilt hfree
    obtain ⟨d, now, rfl, hd⟩ := hbuilt
    obtain ⟨hself, hreg⟩ := hd hD
    -- Only a client that updates gives its setters to an IRS of the lookup.
    have hupdates : req.updates = true ∧ req.setters = setters := by
      by_cases hu : req.updates = true <;> simp_all [Request.client]
    obtain ⟨hupdates, rfl⟩ := hupdates
    have happ := applied_applyAll px req.setters (Irs.ofDefaultImpu d now)
    -- A registration or a call sets a document, and so names the default IMPU.
    have hfor := (isFor_ofDefaultImpu now hD hself).applyAll hxml
    refine safe_put_noDowngrade hfor hfree fun _ => ⟨⟨hfor, fun hset => ?_⟩, ?_⟩
    · -- The state was set by a setter, and it was set to `REGISTERED`.
      rw [happ.registrationStateSet] at hset
      obtain ⟨st, hst⟩ := Option.isSome_iff_exists.mp (by simpa [Irs.ofDefaultImpu] using hset)
      rw [happ.registrationState, hst]
      exact req.setters_regState hupdates st hst
    · rw [happ.cas]
      rcases hreg with hreg | hseen
      · refine .inl ?_
        rw [happ.registrationState]
        cases hlast : lastRegState req.setters with
        | none => exact hreg
        | some st => exact req.setters_regState hupdates st hlast
      · exact .inr (.inr hseen)
  · intro hs w new hnew hfree
    have hcreates : req.creates = true ∧ (Irs.blank ttl state, req.setters) = new := by
      by_cases hc : req.creates = true <;> simp_all [Request.client]
    obtain ⟨hcreates, rfl⟩ := hcreates
    obtain ⟨xml, hmem⟩ := req.exists_imsSubXml hcreates
    have hfor : IsFor D ((Irs.blank ttl state).applyAll px req.setters) :=
      ⟨defaultImpu_applyAll_of_mem hxml hmem _, untracked_applyAll hxml (by
        show (∅ : Data)[D]? = none
        exact Std.ExtTreeMap.getElem?_empty)⟩
    refine safe_put_noDowngrade hfor hfree fun hex => ?_
    -- A new IRS claims nothing about a record.
    rw [(applied_applyAll px req.setters (Irs.blank ttl state)).existing] at hex
    cases hex

/-! ### Every interleaving -/

section Run

variable {ι : Type} [DecidableEq ι]

/-- The requests of all clients, before their first store call. -/
def requestPool (px : XmlParser) (cache : MemcachedCache) (D : String) (w : World)
    (requests : ι → Request) (lookups : ι → Lookup) (ttls : ι → Int)
    (states : ι → RegistrationState) : Pool ι Call Call.Resp World (Option (Status × Irs)) :=
  .start w fun i => ((requests i).client (lookups i) (ttls i) (states i)).run px cache D

/-- A guaranteed call of one client is something that the others rely on. -/
theorem rely_of_guar_noDowngrade {hs : History} {w : World} {o : Call}
    (h : (noDowngrade s D).guar hs w o) : (noDowngrade s D).rely w (serve o w).2 :=
  ⟨serve_later_impus o w s, serve_later_mappings o w s, h⟩

/-- Every schedule of registrations, calls and profile pushes for `D` keeps a registered
record at `D` registered, provided that the record does not list `D` itself. The schedule
`is` reaches the registered state, and `js` is any continuation. -/
theorem registered_stays_registered (px : XmlParser) (cache : MemcachedCache)
    (hremote : cache.remoteStores = []) (D : String) (requests : ι → Request)
    (lookups : ι → Lookup) (ttls : ι → Int) (states : ι → RegistrationState)
    (hxml : ∀ i, KeepsDefault (requests i).setters px D) (w : World)
    (hfree : (w.stores cache.localStore).SelfFree D) (is js : List ι)
    (hreg : ((Pool.run serve is (requestPool px cache D w requests lookups ttls states)).world.stores
      cache.localStore).RegisteredAt D) :
    ((Pool.run serve (is ++ js)
      (requestPool px cache D w requests lookups ttls states)).world.stores
        cache.localStore).RegisteredAt D := by
  let C : ι → Contract Call Call.Resp World := fun _ => noDowngrade cache.localStore D
  have hstart : Pool.Sound serve C (fun _ _ _ _ => True) (fun _ _ => True)
      (requestPool px cache D w requests lookups ttls states) :=
    ⟨fun i => safe_client_noDowngrade hremote (hxml i) _ _ _ hfree, trivial⟩
  have hsound := hstart.run (fun i j w tr o _ _ hg => rely_of_guar_noDowngrade hg)
    (fun _ _ _ _ _ _ => trivial) is (Pool.meets_of_forall serve (fun _ _ _ _ => trivial) is _)
  -- From the registered state on, its being registered is an invariant of the run.
  have hmid : Pool.Sound serve C (fun _ _ _ _ => True)
      (fun w _ => (w.stores cache.localStore).RegisteredAt D)
      (Pool.run serve is (requestPool px cache D w requests lookups ttls states)) :=
    ⟨hsound.safe, hreg⟩
  have hend := hmid.run (fun i j w tr o _ _ hg => rely_of_guar_noDowngrade hg)
    (fun i w tr o h hg => hg.registered h) js
    (Pool.meets_of_forall serve (fun _ _ _ _ => trivial) js _)
  rw [Pool.run_append]
  exact hend.inv

end Run

/-- A record for `sip:d@example.com` that lists the given associated IMPUs. -/
def listingRecord (registered : Bool) (assocImpu : List String) : DefaultImpuData where
  registrationState := registered
  serviceProfile := "profile"
  expiry := 100
  assocImpu := assocImpu
  impis := []
  ecfs := []
  ccfs := []

/-- A store with that record only. -/
def listingWorld (registered : Bool) (assocImpu : List String) : World :=
  .ofTables [("sip:d@example.com", .default (listingRecord registered assocImpu))] []

/-- One document, for two identities. -/
def twoIdentities : XmlParser :=
  .ofTable [("profile", ["sip:d@example.com", "sip:a@example.com"])]

/-- A registration (`true`) and a profile push (`false`) for the same IRS. -/
def regAndPpr : Bool → Request
  | true => .reg none {} "profile" 300
  | false => .ppr none (some { ccfs := ["ccf"] })

/-- The two clients on the store with the record. -/
def regAndPprPool (registered : Bool) (assocImpu : List String) :
    Pool Bool Call Call.Resp World (Option (Status × Irs)) :=
  requestPool twoIdentities ⟨0, []⟩ "sip:d@example.com" (listingWorld registered assocImpu)
    regAndPpr (fun _ => .byImpu "sip:d@example.com") (fun _ => 0) fun _ => .notRegistered

theorem keepsDefault_regAndPpr (i : Bool) :
    KeepsDefault (regAndPpr i).setters twoIdentities "sip:d@example.com" := by
  intro xml hmem
  cases i with
  | true =>
    obtain rfl : xml = "profile" := by simpa [regAndPpr, Request.setters, regSetters] using hmem
    decide
  | false => simp [regAndPpr, Request.setters, pprSetters] at hmem

/-- The profile push reads the record before the registration commits, and commits after
it. -/
theorem registered_stays_registered_afterPpr :
    ((Pool.run serve ([false, false, true, true, true, true, true] ++ List.replicate 20 false)
      (regAndPprPool false ["sip:a@example.com"])).world.stores 0).RegisteredAt
        "sip:d@example.com" :=
  registered_stays_registered twoIdentities ⟨0, []⟩ rfl "sip:d@example.com" regAndPpr _ _ _
    keepsDefault_regAndPpr (listingWorld false ["sip:a@example.com"])
    (fun d hd => by
      have hrecord : ((listingWorld false ["sip:a@example.com"]).stores 0).defaultAt
          "sip:d@example.com" = some (listingRecord false ["sip:a@example.com"]) := by decide
      rw [hrecord] at hd
      cases hd
      decide)
    _ _ (by decide)

/-- A registered record that lists `sip:d@example.com` among its own associated IMPUs, and
one registration. The put writes the record back, and then an associated record over it. -/
theorem registered_lost_by_self_listing :
    (∀ i, KeepsDefault (regAndPpr i).setters twoIdentities "sip:d@example.com") ∧
      ((Pool.run serve [] (regAndPprPool true ["sip:d@example.com"])).world.stores 0).RegisteredAt
        "sip:d@example.com" ∧
      ¬ ((Pool.run serve ([] ++ List.replicate 9 true)
        (regAndPprPool true ["sip:d@example.com"])).world.stores 0).RegisteredAt
          "sip:d@example.com" :=
  ⟨keepsDefault_regAndPpr, by decide, by decide⟩

end Homestead

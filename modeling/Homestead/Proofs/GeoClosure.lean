import Homestead.Proofs.Closure

/-!
# `Homestead.Proofs.GeoClosure`: forward closure in every store of a put

A put replays one IRS on the local store and on each remote one. The states of its elements
are relative to the store the IRS was read from, and an element that is unchanged is written
only when the IRS is refreshed. So a store is closed after its put when the IRS is refreshed, or
when it already backed what the IRS has as unchanged (`closedFor_of_updated`).

* `Elements.atStore` is what a store adds to the elements of an IRS that is not refreshed, and
  `CreatedBacked` the condition on a whole list of stores. A store that has the record backs
  its own elements, so the condition is about the stores in which the put creates it.
* `exists_first_of_impuGr` says that no store before the one of the IRS has a record.
* `eval_putIrsAction_visited` is the step from store to store, `putAll_forEach` the run, and
  `put_keeps_closed_iff` the result.
-/

set_option autoImplicit false

namespace Homestead

open CacheProg Std

/-! ### Elements -/

/-- The map tracks every stored key, and its unchanged keys are stored ones. -/
structure Data.Follows (data : Data) (stored : List String) : Prop where
  tracked : ∀ x ∈ stored, data[x]? ≠ none
  unchanged : ∀ x : String, data[x]? = some .unchanged → x ∈ stored

namespace Data.Follows

variable {data : Data} {stored : List String}

theorem ofStored (stored : List String) : (Data.ofStored stored).Follows stored where
  tracked x hx := by simp [Data.getElem?_ofStored, hx]
  unchanged x hx := by
    rw [Data.getElem?_ofStored] at hx
    by_contra hnot
    rw [if_neg hnot] at hx
    cases hx

theorem insert_added (h : data.Follows stored) (key : String) :
    Data.Follows (data.insert key .added) stored where
  tracked x hx := by
    rw [Data.getElem?_insert]
    split
    · simp
    · exact h.tracked x hx
  unchanged x hx := by
    rw [Data.getElem?_insert] at hx
    split at hx
    · cases hx
    · exact h.unchanged x hx

theorem setElements (h : data.Follows stored) (updated : List String) (ignore : String) :
    (Data.setElements updated data ignore).Follows stored where
  tracked x hx := by
    rw [Data.getElem?_setElements]
    split
    · split
      · simp
      · exact h.tracked x hx
    · simpa using h.tracked x hx
  unchanged x hx := by
    rw [Data.getElem?_setElements] at hx
    split at hx
    · split at hx
      · cases hx
      · exact h.unchanged x hx
    · cases hst : data[x]? <;> simp [hst] at hx

/-- The merge with the stored keys that the map follows changes nothing. -/
theorem mergeDataSets_eq (h : data.Follows stored) : data.mergeDataSets stored = data := by
  refine ExtTreeMap.ext_getElem? fun {x} => ?_
  rw [Data.getElem?_mergeDataSets]
  cases hst : data[x]? with
  | none =>
    have hnot : x ∉ stored := fun hx => h.tracked x hx hst
    simp [hnot]
  | some st =>
    cases st with
    | added => rfl
    | deleted => rfl
    | unchanged => simp [h.unchanged x hst]

end Data.Follows

namespace Elements

/-- The merge with a stored record, for an IRS that is not refreshed. -/
def merge (e : Elements) (d : DefaultImpuData) : Elements where
  associatedImpus := e.associatedImpus.mergeDataSets d.assocImpu
  impis := e.impis.mergeDataSets d.impis

/-- The elements once the put has come to a store. -/
def atStore (e : Elements) (D : String) (st : ImpuStore) : Elements :=
  match st.defaultAt D with
  | some d => e.merge d
  | none => e

/-- Both maps follow a record. -/
structure Follows (e : Elements) (d : DefaultImpuData) : Prop where
  associatedImpus : e.associatedImpus.Follows d.assocImpu
  impis : e.impis.Follows d.impis

theorem Follows.merge_eq {e : Elements} {d : DefaultImpuData} (h : e.Follows d) :
    e.merge d = e := by
  unfold merge
  rw [h.associatedImpus.mergeDataSets_eq, h.impis.mergeDataSets_eq]

/-- After the merge only stored elements are unchanged, and a closed store backs those. -/
theorem backed_merge {D : String} {st : ImpuStore} {d : DefaultImpuData}
    (h : ClosedFor D st) (hd : st.defaultAt D = some d) (e : Elements) :
    (e.merge d).Backed D st where
  associatedImpus x hx := by
    have hmem : x ∈ d.assocImpu := (Data.mergeDataSets_unchanged.mp hx).1
    exact (h d hd).1 x hmem
  impis impi hx := by
    have hmem : impi ∈ d.impis := (Data.mergeDataSets_unchanged.mp hx).1
    exact (h d hd).2 impi hmem

end Elements

/-! ### One store -/

section Store

variable {D : String} {irs irs' : Irs} {s : StoreId} {w w₁ w' : World}

/-- The record that a put merges is the `DefaultImpu` record of the store, if it has one. -/
theorem Irs.merged_of_defaultAt {d : DefaultImpuData}
    (hd : (w.stores s).defaultAt irs.defaultImpu = some d) (now : Int) :
    ∃ cas, irs.merged s ((w.stores s).impus.cells irs.defaultImpu) now
      = irs.updateFromImpuFromStore (d.fromData irs.defaultImpu cas s) now := by
  obtain ⟨cas, hcell⟩ := CasTable.value?_eq_some.mp (ImpuStore.defaultAt_eq_some.mp hd)
  exact ⟨cas, by rw [hcell]; rfl⟩

theorem Irs.merged_of_defaultAt_none (hd : (w.stores s).defaultAt irs.defaultImpu = none)
    (now : Int) : irs.merged s ((w.stores s).impus.cells irs.defaultImpu) now = irs := by
  unfold merged
  split
  · rename_i cas d hcell
    have hsome : (w.stores s).defaultAt irs.defaultImpu = some d :=
      ImpuStore.defaultAt_eq_some.mpr (CasTable.value?_of_cells hcell)
    rw [hd] at hsome
    cases hsome
  · rfl

/-- The put of `irs` has visited the store `s` and left `irs'`. -/
structure Visited (D : String) (irs : Irs) (s : StoreId) (w : World) (irs' : Irs) (w' : World) :
    Prop where
  store : irs'.store = irs.store
  existing : irs'.existing = irs.existing
  refreshed : irs'.refreshed = irs.refreshed
  isFor : IsFor D irs'
  others : ∀ s', s' ≠ s → w'.stores s' = w.stores s'
  created : (w.stores s).impus.value? D = none → irs' = irs
  elements : irs.refreshed = false → irs'.elements = irs.elements.atStore D (w.stores s)
  closed : ClosedFor D (w'.stores s) ↔ irs.refreshed = true ∨
    ((w.stores s).impus.value? D = none → irs.elements.Backed D (w.stores s))

/-- A visit that wrote the record of the IRS, for each view of the store it can have had. -/
theorem visited_of_updated (hfor : IsFor D irs') (hdec : (w.stores s).Decodable)
    (hclosed : ClosedFor D (w.stores s)) (hfree : ¬ irs.BlockedAt (w.stores s))
    (hD : irs.defaultImpu = D) (hstore : irs'.store = irs.store)
    (hex : irs'.existing = irs.existing) (hr : irs'.refreshed = irs.refreshed)
    (hnone : (w.stores s).defaultAt D = none → irs' = irs)
    (hsome : ∀ d, (w.stores s).defaultAt D = some d → irs.refreshed = false →
      irs'.elements = irs.elements.merge d)
    (hwritten : RecordWritten irs' s w w₁) (hupd : Updated irs' s w₁ w') :
    Visited D irs s w irs' w' := by
  have habsent : (w.stores s).impus.value? D = none → (w.stores s).defaultAt D = none := by
    intro hvalue
    unfold ImpuStore.defaultAt
    rw [hvalue]
  refine ⟨hstore, hex, hr, hfor, fun s' hs' => ?_, fun hvalue => hnone (habsent hvalue),
    fun hfresh => ?_, ?_⟩
  · rw [hupd.stores s' hs', hwritten.only.stores s' hs']
  · unfold Elements.atStore
    cases hd : (w.stores s).defaultAt D with
    | some d => exact hsome d hd hfresh
    | none => rw [hnone hd]
  · rw [closedFor_of_updated hfor hdec hwritten hupd, hr]
    cases hfresh : irs.refreshed with
    | true => simp
    | false =>
      simp only [Bool.false_eq_true, false_or]
      cases hd : (w.stores s).defaultAt D with
      | some d =>
        rw [hsome d hd hfresh]
        have hpresent : (w.stores s).impus.value? D ≠ none := by
          rw [ImpuStore.defaultAt_eq_some.mp hd]
          exact nofun
        exact iff_of_true (Elements.backed_merge hclosed hd _) fun h => absurd h hpresent
      | none =>
        rw [hnone hd]
        -- The put was free to write, so the key is empty and the record is created.
        have hvalue : (w.stores s).impus.value? D = none := by
          cases hvalue : (w.stores s).impus.value? D with
          | none => rfl
          | some blob =>
            cases blob with
            | corrupt => exact absurd hvalue (hdec.impus D)
            | decoded data =>
              cases data with
              | default d => simp [ImpuStore.defaultAt, hvalue] at hd
              | associated E expiry =>
                subst hD
                exact absurd ⟨hfresh, E, expiry, hvalue⟩ hfree
        exact ⟨fun h _ => h, fun h => h hvalue⟩

/-- One store. An IRS that is current follows the record of the store, so the put writes it as
if it had merged that record. -/
theorem eval_putIrsAction_visited (hex : irs.existing = true) (hfor : IsFor D irs)
    (hdec : (w.stores s).Decodable) (hclosed : ClosedFor D (w.stores s))
    (horigin : irs.store = some s → ∃ d, (w.stores s).defaultAt D = some d ∧
      irs.elements.Follows d) :
    ∃ status irs' w', Eval serve (putIrsAction irs s) w (status, irs') w' ∧
      Visited D irs s w irs' w' ∧ (status = .ok ∨ ∃ E, (w.stores s).PointsAt D E) := by
  obtain rfl := hfor.defaultImpu
  obtain ⟨status, irs', w₁, he, hcase⟩ := eval_updateIrsImpu irs s (.inr (hdec.impus _))
  have hfirst : Eval serve (putIrsImpu irs s) w (status, irs') w₁ := by
    unfold putIrsImpu
    rw [if_pos hex]
    exact he
  rcases hcase with ⟨rfl, hwritten, hirs'⟩ | ⟨rfl, rfl, hblocked, -, hsame⟩
  · -- The record was written, and the mappings are those that were there before.
    have hdec₁ : RefreshDecodable irs' s w₁ := by
      intro _ impi _
      rw [hwritten.only.mappings]
      exact hdec.mappings impi
    obtain ⟨w', hput, hupd⟩ := eval_putIrsAction hfirst hdec₁
    refine ⟨.ok, irs', w', hput, ?_, .inl rfl⟩
    rcases hirs' with ⟨hcur, rfl⟩ | ⟨-, hfree, now, rfl⟩
    · -- The first attempt, with the CAS value of the lookup: nothing was merged.
      obtain ⟨d, hd, hfollows⟩ := horigin hcur.1
      have hfree : ¬ irs'.BlockedAt (w.stores s) := by
        rintro ⟨-, E, expiry, hvalue⟩
        rw [ImpuStore.defaultAt_eq_some.mp hd] at hvalue
        cases hvalue
      refine visited_of_updated hfor hdec hclosed hfree rfl rfl rfl rfl (fun _ => rfl) ?_
        hwritten hupd
      intro d' hd' _
      rw [hd] at hd'
      cases hd'
      exact hfollows.merge_eq.symm
    · -- The record was read again. Without one, the IRS is written as it is.
      cases hd : (w.stores s).defaultAt irs.defaultImpu with
      | none =>
        have hsame := irs.merged_of_defaultAt_none hd now
        rw [hsame] at hwritten hupd ⊢
        refine visited_of_updated hfor hdec hclosed hfree rfl rfl rfl rfl (fun _ => rfl) ?_
          hwritten hupd
        intro d hd'
        rw [hd] at hd'
        cases hd'
      | some d =>
        obtain ⟨cas, hmerged⟩ := irs.merged_of_defaultAt hd now
        rw [hmerged] at hwritten hupd ⊢
        refine visited_of_updated (hfor.merge now (hclosed.notMem hd)) hdec hclosed hfree rfl rfl
          rfl rfl ?_ ?_ hwritten hupd
        · intro hnone
          rw [hd] at hnone
          cases hnone
        · intro d' hd' hfresh
          rw [hd] at hd'
          cases hd'
          unfold Irs.elements Elements.merge
          dsimp only [Irs.updateFromImpuFromStore, DefaultImpuData.fromData]
          rw [hfresh]
          rfl
  · -- Nothing was written, and the key holds an associated IMPU.
    obtain ⟨hfresh, E, hpoints⟩ := hblocked
    have hnone : (w.stores s).defaultAt irs'.defaultImpu = none := by
      obtain ⟨expiry, hvalue⟩ := hpoints
      simp [ImpuStore.defaultAt, hvalue]
    have hpresent : (w.stores s).impus.value? irs'.defaultImpu ≠ none := by
      obtain ⟨expiry, hvalue⟩ := hpoints
      simp [hvalue]
    -- The action ends here, so the store stays as closed as it was.
    refine ⟨.error, irs', w₁, eval_putIrsAction_of_ne hfirst (by decide), ?_, .inr ⟨E, hpoints⟩⟩
    refine ⟨rfl, rfl, rfl, hfor, fun s' _ => by rw [hsame], fun _ => rfl, fun _ => ?_, ?_⟩
    · simp [Elements.atStore, hnone]
    · rw [hsame]
      exact iff_of_true hclosed (.inr fun h => absurd h hpresent)

end Store

/-! ### All stores -/

section

variable (D : String) (w : World)

/-- In each of the stores that has nothing under `D`, where a put creates the record, what the
IRS has as unchanged by then is backed. -/
def CreatedBacked : Elements → List StoreId → Prop
  | _, [] => True
  | e, s :: stores =>
    ((w.stores s).impus.value? D = none → e.Backed D (w.stores s)) ∧
      CreatedBacked (e.atStore D (w.stores s)) stores

end

theorem CreatedBacked.iff_of_stores {D : String} {w w' : World} {stores : List StoreId}
    (h : ∀ s ∈ stores, w'.stores s = w.stores s) (e : Elements) :
    CreatedBacked D w' e stores ↔ CreatedBacked D w e stores := by
  induction stores generalizing e with
  | nil => exact .rfl
  | cons s stores ih =>
    unfold CreatedBacked
    rw [h s List.mem_cons_self, ih fun s' hs' => h s' (List.mem_cons_of_mem _ hs')]

/-- A put of `irs` has come to the stores that are left. The store that the IRS was read from
has the record it follows, and those before it have nothing under `D`. -/
structure Pending (D : String) (irs : Irs) (stores : List StoreId) (w : World) : Prop where
  existing : irs.existing = true
  isFor : IsFor D irs
  decodable : ∀ s ∈ stores, (w.stores s).Decodable
  closed : ∀ s ∈ stores, ClosedFor D (w.stores s)
  origin : ∀ before s after, stores = before ++ s :: after → irs.store = some s →
    (∀ s' ∈ before, (w.stores s').impus.value? D = none) ∧
      ∃ d, (w.stores s).defaultAt D = some d ∧ irs.elements.Follows d

/-- What a put of `irs` leaves in the stores, from the world `w`. -/
structure PutAll (D : String) (irs : Irs) (stores : List StoreId) (w w' : World) : Prop where
  others : ∀ s, s ∉ stores → w'.stores s = w.stores s
  closed : (∀ s ∈ stores, ClosedFor D (w'.stores s)) ↔
    irs.refreshed = true ∨ CreatedBacked D w irs.elements stores

section Stores

variable {D : String} {irs irs' : Irs} {s : StoreId} {stores : List StoreId} {w w₁ w' : World}

/-- After the visit of one store the put has come to the rest. -/
theorem Pending.tail (h : Pending D irs (s :: stores) w) (hs : s ∉ stores)
    (hvisit : Visited D irs s w irs' w₁) : Pending D irs' stores w₁ := by
  have hsame : ∀ s' ∈ stores, w₁.stores s' = w.stores s' :=
    fun s' hs' => hvisit.others s' fun heq => hs (heq ▸ hs')
  refine ⟨hvisit.existing.trans h.existing, hvisit.isFor, fun s' hs' => ?_, fun s' hs' => ?_, ?_⟩
  · rw [hsame s' hs']
    exact h.decodable s' (List.mem_cons_of_mem _ hs')
  · rw [hsame s' hs']
    exact h.closed s' (List.mem_cons_of_mem _ hs')
  · intro before o after hstores ho
    -- The store of the IRS is still to come, so this one had no record and the IRS is the same.
    obtain ⟨hbefore, d, hd, hfollows⟩ := h.origin (s :: before) o after (by rw [hstores]; rfl)
      (hvisit.store.symm.trans ho)
    have hirs' := hvisit.created (hbefore s List.mem_cons_self)
    subst hirs'
    have hmem : ∀ s' ∈ before ++ o :: after, w₁.stores s' = w.stores s' := by
      rw [← hstores]
      exact hsame
    refine ⟨fun s' hs' => ?_, d, ?_, hfollows⟩
    · rw [hmem s' (List.mem_append_left _ hs')]
      exact hbefore s' (List.mem_cons_of_mem _ hs')
    · rw [hmem o (by simp)]
      exact hd

/-- The stores after the first visit and those after the rest, put together. -/
theorem PutAll.cons (hs : s ∉ stores) (hvisit : Visited D irs s w irs' w₁)
    (hrest : PutAll D irs' stores w₁ w') : PutAll D irs (s :: stores) w w' where
  others s' hs' := by
    rw [hrest.others s' fun hmem => hs' (List.mem_cons_of_mem _ hmem)]
    exact hvisit.others s' fun heq => hs' (heq ▸ List.mem_cons_self)
  closed := by
    have hsame : ∀ s' ∈ stores, w₁.stores s' = w.stores s' :=
      fun s' hs' => hvisit.others s' fun heq => hs (heq ▸ hs')
    rw [List.forall_mem_cons, hrest.others s hs, hvisit.closed, hrest.closed, hvisit.refreshed,
      CreatedBacked.iff_of_stores hsame]
    cases hfresh : irs.refreshed with
    | true => simp
    | false =>
      rw [hvisit.elements hfresh]
      simp [CreatedBacked]

theorem PutAll.nil (D : String) (irs : Irs) (w : World) : PutAll D irs [] w w where
  others _ _ := rfl
  closed := by simp [CreatedBacked]

/-- The next store of a put. -/
theorem Pending.eval_head (h : Pending D irs (s :: stores) w) :
    ∃ status irs' w₁, Eval serve (putIrsAction irs s) w (status, irs') w₁ ∧
      Visited D irs s w irs' w₁ ∧ (status = .ok ∨ ∃ E, (w.stores s).PointsAt D E) :=
  eval_putIrsAction_visited h.existing h.isFor (h.decodable s List.mem_cons_self)
    (h.closed s List.mem_cons_self) fun horigin => (h.origin [] s stores rfl horigin).2

/-- The loop over the remote stores. -/
theorem putAll_forEach (hdistinct : stores.Nodup) (h : Pending D irs stores w) :
    ∃ irs' w', Eval serve (Prog.forEach stores
        (fun remoteStore irs => do
          let inner ← putIrsAction irs remoteStore
          pure inner.2) irs) w irs' w' ∧
      PutAll D irs stores w w' := by
  induction stores generalizing irs w with
  | nil => exact ⟨irs, w, .ret _ _, .nil D irs w⟩
  | cons s stores ih =>
    obtain ⟨hs, hrest⟩ := List.nodup_cons.mp hdistinct
    obtain ⟨status, irs₁, w₁, he, hvisit, -⟩ := h.eval_head
    obtain ⟨irs', w', hloop, hput⟩ := ih hrest (h.tail hs hvisit)
    have hbody : Eval serve (do
        let inner ← putIrsAction irs s
        pure inner.2) w irs₁ w₁ := he.bind (.ret _ _)
    exact ⟨irs', w', hbody.bind hloop, .cons hs hvisit hput⟩

/-- `perform` with the put. The local store does not stop it: it has either the record of the
IRS or nothing. -/
theorem putAll_perform {cache : MemcachedCache}
    (hdistinct : (cache.localStore :: cache.remoteStores).Nodup)
    (h : Pending D irs (cache.localStore :: cache.remoteStores) w) {o : StoreId}
    (ho : irs.store = some o) (hmem : o ∈ cache.localStore :: cache.remoteStores) :
    ∃ r w', Eval serve (cache.perform (fun store irs => putIrsAction irs store) irs) w r w' ∧
      PutAll D irs (cache.localStore :: cache.remoteStores) w w' := by
  obtain ⟨hs, hrest⟩ := List.nodup_cons.mp hdistinct
  obtain ⟨status, irs₁, w₁, he, hvisit, hstatus⟩ := h.eval_head
  have hok : status = .ok := by
    refine hstatus.resolve_right ?_
    rintro ⟨E, expiry, hvalue⟩
    -- The local store is the one of the IRS, or comes before it.
    obtain ⟨before, after, hstores⟩ := List.append_of_mem hmem
    obtain ⟨hbefore, d, hd, -⟩ := h.origin before o after hstores ho
    cases before with
    | nil =>
      obtain ⟨rfl, -⟩ := List.cons.inj hstores
      rw [ImpuStore.defaultAt_eq_some.mp hd] at hvalue
      cases hvalue
    | cons s' before =>
      obtain ⟨rfl, -⟩ := List.cons.inj hstores
      rw [hbefore _ List.mem_cons_self] at hvalue
      cases hvalue
  subst hok
  obtain ⟨irs', w', hloop, hput⟩ := putAll_forEach hrest (h.tail hs hvisit)
  exact ⟨(.ok, irs'), w', he.bind ((eval_progressCb w₁).bind (hloop.bind (.ret _ _))),
    .cons hs hvisit hput⟩

end Stores

/-! ### The IRS of a lookup -/

/-- The setters keep an IRS on the record it follows. -/
theorem follows_applyAll {px : XmlParser} {d : DefaultImpuData} (setters : List Setter)
    {irs : Irs} (h : irs.elements.Follows d) : (irs.applyAll px setters).elements.Follows d := by
  refine applyAll_induction (P := fun irs => irs.elements.Follows d)
    (fun setter _ irs h => ?_) h
  cases setter with
  | setRegState state => exact h
  | addAssociatedImpi impi => exact ⟨h.associatedImpus, h.impis.insert_added impi⟩
  | setChargingAddresses addresses => exact h
  | setImsSubXml xml => exact ⟨h.associatedImpus.setElements _ _, h.impis⟩
  | setTtl ttl => exact h

theorem ImpuStore.value?_of_getImpu_ne {st : ImpuStore} {s : StoreId} {impu : String}
    (hdec : st.Decodable) (h : (st.getImpu s impu).1 ≠ .ok) : st.impus.value? impu = none := by
  rw [CasTable.value?_eq_none]
  cases hcell : st.impus.cells impu with
  | none => rfl
  | some p =>
    obtain ⟨cas, blob⟩ := p
    cases blob with
    | corrupt => exact absurd (CasTable.value?_of_cells hcell) (hdec.impus impu)
    | decoded data =>
      rw [getImpu_of_decoded hcell] at h
      exact absurd rfl h

section Lookup

variable {px : XmlParser} {cache : MemcachedCache} {D : String} {w w₁ : World}

/-- An IRS that a lookup found, after the setters: the put of it has come to all the stores,
and it was read from one of them. -/
theorem pending_of_lookup (hdistinct : (cache.localStore :: cache.remoteStores).Nodup)
    (hdec : ∀ s ∈ cache.localStore :: cache.remoteStores, (w.stores s).Decodable)
    (hclosed : ∀ s ∈ cache.localStore :: cache.remoteStores, ClosedFor D (w.stores s))
    {l : Lookup} {irss : List Irs} (hlookup : Eval serve (cache.lookup l) w (.ok, irss) w₁)
    {irs : Irs} (hirs : irs ∈ irss) (hD : irs.defaultImpu = D) {setters : List Setter}
    (hxml : KeepsDefault setters px D) :
    Pending D (irs.applyAll px setters) (cache.localStore :: cache.remoteStores) w₁ ∧
      (irs.applyAll px setters).refreshed = setsTtl setters ∧
      ∃ o ∈ cache.localStore :: cache.remoteStores,
        (irs.applyAll px setters).store = some o := by
  obtain ⟨hstores, hfound⟩ := look_of_lookup hlookup
  obtain ⟨impu, d, hlook, now, rfl⟩ := hfound irs hirs
  obtain rfl : d.impu = D := hD
  obtain ⟨before, o, after, hsplit, hbefore, hget⟩ :=
    MemcachedCache.exists_first_of_impuGr (MemcachedCache.impuGr_of_look hlook)
  have ho : o ∈ cache.localStore :: cache.remoteStores := by
    rw [hsplit]
    simp
  -- The record of the IRS, as the store `o` holds it.
  have hrecord : ∃ cas d', (w.stores o).defaultAt d.impu = some d' ∧
      d = d'.fromData d.impu cas o := by
    obtain ⟨cas, data, hcell, hdata⟩ := ImpuStore.cells_of_getImpu hget
    cases data with
    | default d' =>
      exact ⟨cas, d', ImpuStore.defaultAt_eq_some.mpr (CasTable.value?_of_cells hcell),
        Impu.default.inj hdata⟩
    | associated E expiry => cases hdata
  obtain ⟨cas, d', hd', heq⟩ := hrecord
  have hself : d.impu ∉ d.associatedImpus := by
    rw [heq]
    exact (hclosed o ho).notMem hd'
  have hfollows : (Irs.ofDefaultImpu d now).elements.Follows d' := by
    rw [heq]
    exact ⟨.ofStored _, .ofStored _⟩
  have happlied := applied_applyAll px setters (Irs.ofDefaultImpu d now)
  have hstore : (Irs.ofDefaultImpu d now).store = some o := by
    rw [heq]
    rfl
  refine ⟨⟨happlied.existing, (isFor_ofDefaultImpu now rfl hself).applyAll hxml, ?_, ?_, ?_⟩,
    happlied.refreshed, o, ho, happlied.store.trans hstore⟩
  · rwa [hstores]
  · rwa [hstores]
  · intro before' s after' hsplit' hs
    rw [happlied.store, hstore] at hs
    obtain rfl := Option.some.inj hs
    -- The stores are distinct, so this is the first store with a record.
    rw [hsplit] at hdistinct
    have hnotMem := List.nodup_middle.mp hdistinct
    obtain ⟨rfl, -, rfl⟩ := (List.append_cons_inj_of_notMem
      (fun hmem => (List.nodup_cons.mp hnotMem).1 (List.mem_append_left _ hmem))
      (fun hmem => (List.nodup_cons.mp hnotMem).1 (List.mem_append_right _ hmem))).mp
      (hsplit.symm.trans hsplit')
    rw [hstores]
    refine ⟨fun s' hs' => ?_, d', hd', follows_applyAll setters hfollows⟩
    have hmem : s' ∈ cache.localStore :: cache.remoteStores := by
      rw [hsplit]
      exact List.mem_append_left _ hs'
    exact ImpuStore.value?_of_getImpu_ne (hdec s' hmem) (hbefore s' hs')

/-- A put keeps forward closure for its default IMPU in every store of the cache, exactly when
it writes nothing, sets the TTL, or finds what it leaves unchanged in every store in which it
creates the record. -/
theorem put_keeps_closed_iff (hdistinct : (cache.localStore :: cache.remoteStores).Nodup)
    (hdec : ∀ s ∈ cache.localStore :: cache.remoteStores, (w.stores s).Decodable)
    (hclosed : ∀ s ∈ cache.localStore :: cache.remoteStores, ClosedFor D (w.stores s))
    {l : Lookup} {irss : List Irs} (hlookup : Eval serve (cache.lookup l) w (.ok, irss) w₁)
    {irs : Irs} (hirs : irs ∈ irss) (hD : irs.defaultImpu = D) {setters : List Setter}
    (hxml : KeepsDefault setters px D) :
    ∃ r w', Eval serve (cache.putImplicitRegistrationSet (irs.applyAll px setters)) w₁ r w' ∧
      ((∀ s ∈ cache.localStore :: cache.remoteStores, ClosedFor D (w'.stores s)) ↔
        (irs.applyAll px setters).hasChanged = false ∨ setsTtl setters = true ∨
          CreatedBacked D w (irs.applyAll px setters).elements
            (cache.localStore :: cache.remoteStores)) := by
  have hstores := (look_of_lookup hlookup).1
  obtain ⟨hpending, hrefreshed, o, ho, hstore⟩ :=
    pending_of_lookup hdistinct hdec hclosed hlookup hirs hD hxml
  unfold MemcachedCache.putImplicitRegistrationSet
  cases hchanged : (irs.applyAll px setters).hasChanged with
  | false =>
    refine ⟨_, w₁, (eval_progressCb w₁).bind (.ret _ _), ?_⟩
    rw [hstores]
    exact iff_of_true hclosed (.inl rfl)
  | true =>
    obtain ⟨r, w', he, hput⟩ := putAll_perform hdistinct hpending hstore ho
    refine ⟨r, w', he, ?_⟩
    rw [hput.closed, hrefreshed, CreatedBacked.iff_of_stores fun s _ => congrFun hstores s]
    simp

end Lookup

/-- A record with one associated IMPU. -/
def oneAssociated : DefaultImpuData where
  registrationState := true
  serviceProfile := "profile"
  expiry := 100
  assocImpu := ["sip:a@example.com"]
  impis := []
  ecfs := []
  ccfs := []

/-- A local store with the record and its associated IMPU, and no record anywhere else. -/
def localOnlyWorld : World where
  stores s :=
    if s = 0 then
      { impus := (CasTable.empty.put "sip:d@example.com" (.decoded (.default oneAssociated))).put
          "sip:a@example.com" (.decoded (.associated "sip:d@example.com" 100))
        mappings := .empty }
    else .empty
  clock _ := 0

theorem localOnlyWorld_decodable : ∀ s ∈ [0, 1], (localOnlyWorld.stores s).Decodable := by
  have hempty : ImpuStore.empty.Decodable := ⟨nofun, nofun⟩
  intro s hs
  simp only [List.mem_cons, List.not_mem_nil, or_false] at hs
  rcases hs with rfl | rfl
  · refine ⟨fun key => ?_, hempty.mappings⟩
    simp only [localOnlyWorld, if_true, CasTable.put_value?]
    split
    · exact nofun
    · split
      · exact nofun
      · exact hempty.impus key
  · exact hempty

theorem localOnlyWorld_closed :
    ∀ s ∈ [0, 1], ClosedFor "sip:d@example.com" (localOnlyWorld.stores s) := by
  intro s hs
  simp only [List.mem_cons, List.not_mem_nil, or_false] at hs
  rcases hs with rfl | rfl
  · intro d hd
    rw [show (localOnlyWorld.stores 0).defaultAt "sip:d@example.com" = some oneAssociated by
      decide] at hd
    obtain rfl := Option.some.inj hd
    refine ⟨fun x hx => ?_, fun impi hx => absurd hx List.not_mem_nil⟩
    rw [List.mem_singleton.mp hx]
    exact ⟨100, by decide⟩
  · exact closedFor_of_none rfl

theorem eval_lookup_localOnlyWorld :
    Eval serve (MemcachedCache.lookup ⟨0, [1]⟩ (.byImpu "sip:d@example.com")) localOnlyWorld
      (.ok, [Irs.ofDefaultImpu (oneAssociated.fromData "sip:d@example.com" 1 0) 0])
      localOnlyWorld.tick :=
  (MemcachedCache.eval_getImplicitRegistrationSetForImpu_ok (show
    MemcachedCache.defaultImpuFor ⟨0, [1]⟩ localOnlyWorld "sip:d@example.com"
      = (.ok, some (oneAssociated.fromData "sip:d@example.com" 1 0)) by decide)).bind (.ret _ _)

/-- A registration in the world without a remote record writes the associated IMPU there too. -/
theorem put_keeps_closed_iff_registration : ∃ r w',
    Eval serve (MemcachedCache.putImplicitRegistrationSet ⟨0, [1]⟩
      ((Irs.ofDefaultImpu (oneAssociated.fromData "sip:d@example.com" 1 0) 0).applyAll oneProfile
        (regSetters none {} "profile" 300))) localOnlyWorld.tick r w' ∧
      ∀ s ∈ [0, 1], ClosedFor "sip:d@example.com" (w'.stores s) := by
  have hxml : KeepsDefault (regSetters none {} "profile" 300) oneProfile "sip:d@example.com" := by
    intro xml hmem
    have heq : xml = "profile" := by simpa [regSetters] using hmem
    rw [heq]
    decide
  obtain ⟨r, w', he, hiff⟩ := put_keeps_closed_iff (by decide) localOnlyWorld_decodable
    localOnlyWorld_closed eval_lookup_localOnlyWorld List.mem_cons_self rfl hxml
  exact ⟨r, w', he, hiff.mpr (.inr (.inl rfl))⟩

/-- A profile push to that world creates the record in the remote store, without the associated
IMPU that it lists. -/
theorem put_opens_remote_store :
    ¬ ∀ (px : XmlParser) (cache : MemcachedCache) (D : String) (w w₁ w' : World) (l : Lookup)
      (irss : List Irs) (irs : Irs) (setters : List Setter) (r : Status × Irs),
      (cache.localStore :: cache.remoteStores).Nodup →
      (∀ s ∈ cache.localStore :: cache.remoteStores, (w.stores s).Decodable) →
      (∀ s ∈ cache.localStore :: cache.remoteStores, ClosedFor D (w.stores s)) →
      Eval serve (cache.lookup l) w (.ok, irss) w₁ → irs ∈ irss → irs.defaultImpu = D →
      KeepsDefault setters px D →
      Eval serve (cache.putImplicitRegistrationSet (irs.applyAll px setters)) w₁ r w' →
      ∀ s ∈ cache.localStore :: cache.remoteStores, ClosedFor D (w'.stores s) := by
  intro h
  let setters := pprSetters none (some { ecfs := ["ecf"], ccfs := [] })
  let irs := Irs.ofDefaultImpu (oneAssociated.fromData "sip:d@example.com" 1 0) 0
  let put := MemcachedCache.putImplicitRegistrationSet ⟨0, [1]⟩ (irs.applyAll oneProfile setters)
  -- The run is executed, and what it leaves at the remote store is compared with the closure.
  have hrun : (match Prog.exec serve 40 put localOnlyWorld.tick with
      | some (_, w) =>
        decide (((w.stores 1).defaultAt "sip:d@example.com").map (·.assocImpu)
            = some ["sip:a@example.com"] ∧
          (w.stores 1).impus.value? "sip:a@example.com" = none)
      | none => false) = true := by decide
  cases hexec : Prog.exec serve 40 put localOnlyWorld.tick with
  | none =>
    rw [hexec] at hrun
    cases hrun
  | some p =>
    obtain ⟨r, w'⟩ := p
    rw [hexec] at hrun
    obtain ⟨hlisted, habsent⟩ := of_decide_eq_true hrun
    obtain ⟨d, hd, hassoc⟩ := Option.map_eq_some_iff.mp hlisted
    have hxml : KeepsDefault setters oneProfile "sip:d@example.com" := by
      intro xml hmem
      simp [setters, pprSetters] at hmem
    have hclosed := h oneProfile ⟨0, [1]⟩ "sip:d@example.com" localOnlyWorld localOnlyWorld.tick w'
      (.byImpu "sip:d@example.com") _ irs setters r (by decide) localOnlyWorld_decodable
      localOnlyWorld_closed eval_lookup_localOnlyWorld List.mem_cons_self rfl hxml
      (Prog.eval_of_exec hexec) 1 (by decide)
    obtain ⟨expiry, hvalue⟩ := (hclosed d hd).1 "sip:a@example.com" (by rw [hassoc]; simp)
    rw [habsent] at hvalue
    cases hvalue

end Homestead

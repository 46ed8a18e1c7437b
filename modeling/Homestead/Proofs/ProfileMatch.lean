import Homestead.Proofs.Concurrent
import Homestead.Proofs.Setters

/-!
# `Homestead.Proofs.ProfileMatch`: associated IMPUs and service profile

A record at `D` matches its profile when its associated IMPUs are the public identities of
the service profile without `D` (`Matches`). Any number of clients read the record, set a
document for `D` and put the IRS, interleaved call by call.

A put that meets no contention writes a matching record, and so does every put of a
refreshed IRS, whose merge only records deletions. A put of an IRS that is not refreshed
merges the associated IMPUs of the store into those of its document, while its profile
wins. `ReadsSimilar` is the condition on the record it reads again under which this merge
changes nothing.

* `safe_client_matching` is the rely-guarantee proof of one client.
* `record_matches_profile` is the result for every run that meets the condition.
* `profile_mismatch_by_merge` is a run with two profile pushes that does not.
-/

set_option autoImplicit false

namespace Homestead

open CacheProg

/-- The associated IMPUs of the record are the public identities of its profile, but `D`. -/
def Matches (px : XmlParser) (D : String) (d : DefaultImpuData) : Prop :=
  ∀ x, x ∈ d.assocImpu ↔ x ∈ px.getPublicIds d.serviceProfile ∧ x ≠ D

/-- The record at `D` is there and matches its profile. -/
def MatchesAt (px : XmlParser) (s : StoreId) (D : String) (w : World) : Prop :=
  ∃ d, (w.stores s).defaultAt D = some d ∧ Matches px D d

/-! ### The record a client started from -/

/-- The default IMPU record that a call has read under the key `D`. -/
def readOf (s : StoreId) (D : String) : Event Call Call.Resp → Option DefaultImpu
  | ⟨.getImpu s' impu, (_, some (.default d))⟩ => if s' = s ∧ impu = D then some d else none
  | _ => none

namespace History

variable {s : StoreId} {D : String} {hs : History} {e : Event Call Call.Resp}

/-- The last record that the client read at `D` before its first write: the one that its IRS
was built from. -/
def basis (s : StoreId) (D : String) (hs : History) : Option DefaultImpu :=
  ((hs.takeWhile fun e => !Call.setsDefault s e.1).filterMap (readOf s D)).getLast?

/-- Once a write was tried, the basis is fixed. -/
theorem basis_snoc_of_attempted (h : hs.Attempted s) :
    basis s D (hs ++ [e]) = basis s D hs := by
  have htake : (hs ++ [e]).takeWhile (fun e => !Call.setsDefault s e.1)
      = hs.takeWhile fun e => !Call.setsDefault s e.1 := by
    obtain ⟨e', hmem, hset⟩ := h
    induction hs with
    | nil => cases hmem
    | cons x hs ih =>
      rw [List.cons_append, List.takeWhile_cons, List.takeWhile_cons]
      split
      · rename_i hx
        rcases List.mem_cons.mp hmem with rfl | hmem
        · simp [hset] at hx
        · rw [ih hmem]
      · rfl
  unfold basis
  rw [htake]

/-- Before the first write, the history is its own prefix. -/
theorem takeWhile_of_not_attempted (h : ¬ hs.Attempted s) (l : History) :
    (hs ++ l).takeWhile (fun e => !Call.setsDefault s e.1)
      = hs ++ l.takeWhile fun e => !Call.setsDefault s e.1 := by
  refine List.takeWhile_append_of_pos fun e he => ?_
  have hset : ¬ Call.setsDefault s e.1 = true := fun hset => h ⟨e, he, hset⟩
  simpa using hset

/-- A call that reads nothing at `D` leaves the basis. -/
theorem basis_snoc_of_none (h : readOf s D e = none) : basis s D (hs ++ [e]) = basis s D hs := by
  by_cases hs' : hs.Attempted s
  · exact basis_snoc_of_attempted hs'
  · have hself := takeWhile_of_not_attempted hs' []
    rw [List.append_nil] at hself
    unfold basis
    rw [takeWhile_of_not_attempted hs', hself]
    by_cases he : Call.setsDefault s e.1 = true <;> simp [he, h]

/-- A read at `D` before the first write is the basis from then on. -/
theorem basis_snoc_of_read {d : DefaultImpu} (hs' : ¬ hs.Attempted s)
    (he : Call.setsDefault s e.1 = false) (h : readOf s D e = some d) :
    basis s D (hs ++ [e]) = some d := by
  unfold basis
  rw [takeWhile_of_not_attempted hs']
  simp [he, h]

end History

/-- What a client without a new TTL may find when it reads the record again. `old` is what
it read first, `ids` are the identities of its document: the associated IMPUs `new` of the
store have nothing that is in neither, and they still have what is in both. -/
def Similar (ids old new : List String) : Prop :=
  (∀ x ∈ new, x ∈ old ∨ x ∈ ids) ∧ ∀ x ∈ old, x ∈ ids → x ∈ new

instance (ids old new : List String) : Decidable (Similar ids old new) :=
  inferInstanceAs (Decidable (_ ∧ _))

instance (s : StoreId) (hs : History) : Decidable (hs.Attempted s) :=
  inferInstanceAs (Decidable (∃ e ∈ hs, Call.setsDefault s e.1 = true))

/-- The condition on the calls of a client: when it does not set the TTL and reads the record
at `D` again after a write that met contention, the record is similar to its basis. -/
def ReadsSimilar (s : StoreId) (D : String) (ids : List String) (setters : List Setter)
    (hs : History) (w : World) (o : Call) : Prop :=
  setsTtl setters = false → o = .getImpu s D → hs.Attempted s →
    ∀ d₀ ∈ hs.basis s D, ∀ d ∈ (w.stores s).defaultAt D, Similar ids d₀.associatedImpus d.assocImpu

instance (s : StoreId) (D : String) (ids : List String) (setters : List Setter) (hs : History)
    (w : World) (o : Call) : Decidable (ReadsSimilar s D ids setters hs w o) :=
  inferInstanceAs (Decidable (_ → _ → _ → ∀ d₀ ∈ hs.basis s D, ∀ d ∈ (w.stores s).defaultAt D,
    Similar ids d₀.associatedImpus d.assocImpu))

/-- The contract of a client. -/
def matching (px : XmlParser) (s : StoreId) (D : String) (ids : List String)
    (setters : List Setter) : Contract Call Call.Resp World where
  rely w w' := CasTable.Later (w.stores s).impus (w'.stores s).impus ∧
    CasTable.Later (w.stores s).mappings (w'.stores s).mappings ∧
    (MatchesAt px s D w → MatchesAt px s D w')
  assume := ReadsSimilar s D ids setters
  guar _ w o := MatchesAt px s D w → MatchesAt px s D (serve o w).2
  rely_refl _ := ⟨.refl _, .refl _, id⟩
  rely_trans h₁ h₂ := ⟨h₁.1.trans h₂.1, h₁.2.1.trans h₂.2.1, fun h => h₂.2.2 (h₁.2.2 h)⟩

variable {px : XmlParser} {s : StoreId} {D : String} {ids : List String} {setters : List Setter}

theorem matchesAt_of_impuKey {o : Call} {w : World} (hkey : o.impuKey ≠ some (s, D))
    (h : MatchesAt px s D w) : MatchesAt px s D (serve o w).2 := by
  unfold MatchesAt
  rw [ImpuStore.defaultAt_congr (serve_impus_cells w hkey)]
  exact h

theorem readsFree_matching : ReadsFree (matching px s D ids setters) := by
  intro hs w o ho
  refine matchesAt_of_impuKey ?_
  rw [ho.keys.1]
  nofun

theorem relyLater_matching : RelyLater (matching px s D ids setters) s :=
  ⟨fun h => h.1, fun h => h.2.1⟩

theorem Matches.notMem {d : DefaultImpuData} (h : Matches px D d) : D ∉ d.assocImpu :=
  fun hmem => ((h D).mp hmem).2 rfl

/-! ### One client -/

/-- What the document `ids` makes of the associated IMPUs `old`. -/
theorem mem_present_setElements {old : List String} (hold : D ∉ old) (x : String) :
    x ∈ (Data.setElements ids (Data.ofStored old) D).present ↔ x ∈ ids ∧ x ≠ D := by
  rw [Data.mem_present, Data.getElem?_setElements, Data.getElem?_ofStored]
  by_cases hids : x ∈ ids
  · by_cases hD : x = D
    · subst hD
      simp [hids, hold]
    · by_cases hx : x ∈ old <;> simp [hids, hD, hx]
  · by_cases hx : x ∈ old <;> simp [hids, hx]

/-- The merge with associated IMPUs that are similar to the old ones changes nothing. -/
theorem getElem?_merge_of_similar {old new : List String} (hnew : D ∉ new)
    (h : Similar ids old new) (data : Data)
    (hdata : ∀ x : String, data[x]? = (Data.setElements ids (Data.ofStored old) D)[x]?) (x : String) :
    (data.mergeDataSets new)[x]? = data[x]? := by
  rw [Data.getElem?_mergeDataSets, hdata, Data.getElem?_setElements, Data.getElem?_ofStored]
  have hin := h.1 x
  have hkeep := h.2 x
  by_cases hids : x ∈ ids <;> by_cases hx : x ∈ old <;> by_cases hn : x ∈ new <;>
    by_cases hD : x = D <;> simp_all

/-- What a client keeps of its IRS from pass to pass: the associated IMPUs are those of its
document. Without a new TTL, they are also what the document made of the basis. -/
structure Matching (px : XmlParser) (s : StoreId) (D xml : String) (setters : List Setter)
    (irs : Irs) (hs : History) : Prop extends IsFor D irs where
  store : irs.store = some s
  imsSubXmlSet : irs.imsSubXmlSet = true
  imsSubXml : irs.imsSubXml = xml
  refreshed : irs.refreshed = setsTtl setters
  present : ∀ x, x ∈ irs.getAssociatedImpus ↔ x ∈ px.getPublicIds xml ∧ x ≠ D
  basis : setsTtl setters = false → ∃ d₀, hs.basis s D = some d₀ ∧ ∀ x : String,
    irs.associatedImpus[x]?
      = (Data.setElements (px.getPublicIds xml) (Data.ofStored d₀.associatedImpus) D)[x]?

variable {xml : String} {irs : Irs} {hs : History}

/-- A call that keeps the basis keeps what the client knows of its IRS. -/
theorem Matching.snoc (h : Matching px s D xml setters irs hs) {e : Event Call Call.Resp}
    (he : History.basis s D (hs ++ [e]) = History.basis s D hs) :
    Matching px s D xml setters irs (hs ++ [e]) :=
  { h with
    basis := fun hset => by
      rw [he]
      exact h.basis hset }

/-- The record that the IRS writes matches its profile. -/
theorem Matching.recordData (h : Matching px s D xml setters irs hs) (expiry : Int) :
    Matches px D (irs.recordData expiry) := by
  intro x
  show x ∈ irs.getAssociatedImpus ↔ x ∈ px.getPublicIds irs.imsSubXml ∧ x ≠ D
  rw [h.imsSubXml]
  exact h.present x

/-- The merge with a record that the client may find. -/
theorem Matching.merge (h : Matching px s D xml setters irs hs) {d : DefaultImpu} (now : Int)
    (hself : D ∉ d.associatedImpus)
    (hsim : setsTtl setters = false → ∀ d₀ ∈ hs.basis s D,
      Similar (px.getPublicIds xml) d₀.associatedImpus d.associatedImpus) :
    Matching px s D xml setters (irs.updateFromImpuFromStore d now) hs := by
  have hfor := h.toIsFor.merge now hself
  have hxml : (irs.updateFromImpuFromStore d now).imsSubXml = xml := by
    show (if irs.imsSubXmlSet then irs.imsSubXml else d.serviceProfile) = xml
    rw [h.imsSubXmlSet, h.imsSubXml]
    rfl
  cases hset : setsTtl setters with
  | true =>
    -- A refreshed IRS only records which associated IMPUs are to be cleared up.
    have hassoc : (irs.updateFromImpuFromStore d now).associatedImpus
        = irs.associatedImpus.emplaceDeleted d.associatedImpus := by
      show (if irs.refreshed then _ else _) = _
      rw [h.refreshed, hset]
      rfl
    refine ⟨hfor, h.store, h.imsSubXmlSet, hxml, h.refreshed, fun x => ?_, by simp [hset]⟩
    show x ∈ (irs.updateFromImpuFromStore d now).associatedImpus.present ↔ _
    rw [hassoc, Data.present_emplaceDeleted]
    exact h.present x
  | false =>
    have hassoc : (irs.updateFromImpuFromStore d now).associatedImpus
        = irs.associatedImpus.mergeDataSets d.associatedImpus := by
      show (if irs.refreshed then _ else _) = _
      rw [h.refreshed, hset]
      rfl
    obtain ⟨d₀, hbasis, hdata⟩ := h.basis hset
    have hsame : ∀ x : String, (irs.updateFromImpuFromStore d now).associatedImpus[x]?
        = irs.associatedImpus[x]? := by
      intro x
      rw [hassoc]
      exact getElem?_merge_of_similar hself (hsim hset d₀ hbasis) _ hdata x
    refine ⟨hfor, h.store, h.imsSubXmlSet, hxml, h.refreshed, fun x => ?_,
      fun _ => ⟨d₀, hbasis, fun x => (hsame x).trans (hdata x)⟩⟩
    rw [← h.present x]
    show x ∈ Data.present _ ↔ x ∈ Data.present _
    rw [Data.mem_present, Data.mem_present, hsame]

/-- The record at `D` that a client reads again is a default IMPU. -/
theorem MatchesAt.getImpu {w : World} (h : MatchesAt px s D w) :
    ∃ d c, (w.stores s).defaultAt D = some d ∧ Matches px D d ∧
      (w.stores s).getImpu s D = (.ok, some (.default (d.fromData D c s))) := by
  obtain ⟨d, hd, hmatch⟩ := h
  obtain ⟨c, hcell⟩ := CasTable.value?_eq_some.mp (ImpuStore.defaultAt_eq_some.mp hd)
  exact ⟨d, c, hd, hmatch, ImpuStore.getImpu_of_decoded hcell⟩

theorem updateRule_matching : UpdateRule (matching px s D (px.getPublicIds xml) setters) s
    (fun irs hs w => Matching px s D xml setters irs hs ∧ MatchesAt px s D w)
    (fun _ _ _ _ => True) (fun irs _ w => IsFor D irs ∧ MatchesAt px s D w) False where
  keep irs :=
    { rely := fun h hr => ⟨h.1, hr.2.2 h.2⟩
      time := fun h => ⟨h.1.snoc (History.basis_snoc_of_none rfl), h.2⟩ }
  fresh irs c := { rely := fun _ _ => trivial, time := fun _ => trivial }
  done h hr := ⟨h.1, hr.2.2 h.2⟩
  absent := by
    rintro irs hs w o rfl ⟨hirs, hmatch⟩ _ _ hnone
    obtain ⟨d, c, -, -, hget⟩ := hmatch.getImpu
    rw [hirs.defaultImpu, hget] at hnone
    cases hnone
  merge := by
    rintro irs hs w d' o rfl ⟨hirs, hmatch⟩ htried hassume hd' now
    obtain ⟨d, c, hd, hm, hget⟩ := hmatch.getImpu
    have htried := htried hirs.store
    rw [hirs.defaultImpu] at hassume
    rw [hirs.defaultImpu, hget] at hd'
    cases hd'
    refine ⟨⟨?_, hmatch⟩, trivial⟩
    -- The record read here becomes the one that the IRS is based on.
    refine (hirs.snoc (History.basis_snoc_of_attempted htried)).merge now hm.notMem ?_
    intro hset d₀ hd₀
    rw [History.basis_snoc_of_attempted htried] at hd₀
    exact hassume hset rfl htried d₀ hd₀ d hd
  replace := by
    rintro irs hs w a o rfl ⟨hirs, hmatch⟩ _ _ ha _
    obtain ⟨d, c, -, -, hget⟩ := hmatch.getImpu
    rw [hirs.defaultImpu, hget] at ha
    cases ha
  blocked := by
    rintro irs hs w a ⟨hirs, hmatch⟩ ha _
    obtain ⟨d, c, -, -, hget⟩ := hmatch.getImpu
    rw [hirs.defaultImpu, hget] at ha
    cases ha
  write := by
    rintro irs hs w c store now o rfl ⟨hirs, hmatch⟩ _ _
    have hafter : MatchesAt px s D
        (serve (.setImpu s (.default (irs.createImpu c store now))) w).2 := by
      rcases serve_setImpu_cases w s (.default (irs.createImpu c store now)) with
        ⟨-, -, hworld⟩ | ⟨-, -, hworld⟩
      · rw [hworld, show (Impu.default (irs.createImpu c store now)).impu = D from
          hirs.defaultImpu]
        exact ⟨_, defaultAt_setImpus_put w s D _, hirs.recordData _⟩
      · rw [hworld]
        exact hmatch
    refine ⟨fun _ => hafter, fun _ => ⟨hirs.toIsFor, hafter⟩, fun _ => ⟨?_, hmatch⟩⟩
    exact hirs.snoc (History.basis_snoc_of_none rfl)

/-- What a lookup knows before the first write. -/
structure Looking (px : XmlParser) (s : StoreId) (D : String) (hs : History) (w : World) :
    Prop where
  unwritten : ¬ hs.Attempted s
  matchesAt : MatchesAt px s D w

theorem Looking.snoc_read {w : World} {o : Call} (h : Looking px s D hs w) (ho : o.IsRead) :
    Looking px s D (hs.add o w) (serve o w).2 := by
  refine ⟨?_, matchesAt_of_impuKey (by rw [ho.keys.1]; nofun) h.matchesAt⟩
  rintro ⟨e, he, hset⟩
  rcases List.mem_append.mp he with he | he
  · exact h.unwritten ⟨e, he, hset⟩
  · obtain rfl := List.mem_singleton.mp he
    cases o with
    | setImpu s' impu => exact ho
    | _ => cases hset

theorem readRule_matching : ReadRule (matching px s D ids setters) s (Looking px s D)
    (fun d hs w => Looking px s D hs w ∧ (d.impu = D → d.store = some s ∧
      D ∉ d.associatedImpus ∧ hs.basis s D = some d)) where
  stable :=
    { rely := fun h hr => ⟨h.unwritten, hr.2.2 h.matchesAt⟩
      read := fun h ho => h.snoc_read ho }
  found := by
    intro hs w impu d h _ hd
    refine ⟨h.snoc_read trivial, fun hD => ?_⟩
    obtain ⟨cas, data, hcell, hdata⟩ := ImpuStore.cells_of_getImpu hd
    cases data with
    | associated D' e => cases hdata
    | default data =>
      cases hdata
      obtain rfl : impu = D := hD
      obtain ⟨d', hd', hmatch⟩ := h.matchesAt
      have hdefault := ImpuStore.defaultAt_eq_some.mpr (CasTable.value?_of_cells hcell)
      obtain rfl : d' = data := Option.some.inj (hd'.symm.trans hdefault)
      -- The read becomes the basis of the write, as this client has written nothing yet.
      refine ⟨rfl, hmatch.notMem, History.basis_snoc_of_read h.unwritten rfl ?_⟩
      show readOf s impu ⟨.getImpu s impu, (w.stores s).getImpu s impu⟩ = _
      rw [hd]
      exact if_pos ⟨rfl, rfl⟩
  rely h hr := ⟨⟨h.1.unwritten, hr.2.2 h.1.matchesAt⟩, h.2⟩
  time := by
    intro d hs w h
    refine ⟨h.1.snoc_read (o := .time) trivial, fun hD => ?_⟩
    obtain ⟨hstore, hself, hbasis⟩ := h.2 hD
    exact ⟨hstore, hself, (History.basis_snoc_of_none rfl).trans hbasis⟩

/-- The IRS that a client puts, after its setters. -/
theorem matching_applyAll (hone : setters.filterMap Setter.imsSubXml? = [xml])
    (hxml : px.getDefaultId xml "" = D) {d : DefaultImpu} (now : Int) (hD : d.impu = D)
    (hstore : d.store = some s) (hself : D ∉ d.associatedImpus) (hbasis : hs.basis s D = some d) :
    Matching px s D xml setters ((Irs.ofDefaultImpu d now).applyAll px setters) hs := by
  have happ := applied_applyAll px setters (Irs.ofDefaultImpu d now)
  have hlast : lastImsSubXml setters = some xml := by
    unfold lastImsSubXml
    rw [hone]
    rfl
  have hkeeps : KeepsDefault setters px D := by
    intro xml' hmem
    have hmem' : xml' ∈ setters.filterMap Setter.imsSubXml? :=
      List.mem_filterMap.mpr ⟨_, hmem, rfl⟩
    rw [hone] at hmem'
    obtain rfl := List.mem_singleton.mp hmem'
    exact hxml
  -- The only document that is set decides the associated IMPUs.
  have hassoc : ((Irs.ofDefaultImpu d now).applyAll px setters).associatedImpus
      = Data.setElements (px.getPublicIds xml) (Data.ofStored d.associatedImpus) D := by
    rw [associatedImpus_applyAll_of_one hone, hxml]
    rfl
  refine ⟨(isFor_ofDefaultImpu now hD hself).applyAll hkeeps, happ.store.trans hstore, ?_, ?_,
    happ.refreshed, fun x => ?_, fun _ => ⟨d, hbasis, fun x => by rw [hassoc]⟩⟩
  · rw [happ.imsSubXmlSet, hlast]
    rfl
  · rw [happ.imsSubXml, hlast]
    rfl
  · show x ∈ Data.present _ ↔ _
    rw [hassoc]
    exact mem_present_setElements hself x

/-- The put of such an IRS. -/
theorem safe_put_matching {w : World} (hex : irs.existing = true)
    (h : Matching px s D xml setters irs hs) (hmatch : MatchesAt px s D w) :
    Safe serve (matching px s D (px.getPublicIds xml) setters) (fun _ _ _ => True)
      (putIrsAction irs s) hs w := by
  let R : Irs → History → World → Prop := fun irs _ w => IsFor D irs ∧ MatchesAt px s D w
  have hfirst : Safe serve (matching px s D (px.getPublicIds xml) setters)
      (fun r hs' w' => r.1 = .ok ∧ R r.2 hs' w' ∨ r.1 ≠ .ok ∧ True) (putIrsImpu irs s) hs w := by
    unfold putIrsImpu
    rw [if_pos hex]
    refine (safe_updateIrsImpu readsFree_matching updateRule_matching ⟨h, hmatch⟩
      fun _ => trivial).weaken ?_
    rintro r hs' w' (hok | ⟨-, hfalse⟩)
    · exact .inl hok
    · exact hfalse.elim
  refine (safe_putIrsAction (T := fun _ _ _ => True) (E := fun _ _ _ => True) hfirst ?_).weaken
    fun _ _ _ _ => trivial
  rintro irs' hs' w' ⟨hfor, hmatch'⟩
  exact (safe_laterOperations (A := fun _ w => MatchesAt px s D w) readsFree_matching
    relyLater_matching hfor.untracked (fun h hr => hr.2.2 h)
    (fun hkey h => ⟨fun _ => matchesAt_of_impuKey hkey h, matchesAt_of_impuKey hkey h⟩)
    hmatch').weaken fun _ _ _ _ => trivial

/-- One client with one document for `D`, among any number of others. -/
theorem safe_client_matching {cache : MemcachedCache} (hremote : cache.remoteStores = [])
    (hone : setters.filterMap Setter.imsSubXml? = [xml]) (hxml : px.getDefaultId xml "" = D)
    (lookup : Lookup) {w : World} (h : MatchesAt px cache.localStore D w) :
    Safe serve (matching px cache.localStore D (px.getPublicIds xml) setters) (fun _ _ _ => True)
      ((updateClient lookup setters).run px cache D) [] w := by
  have hunwritten : ¬ History.Attempted cache.localStore [] := by
    rintro ⟨e, he, -⟩
    cases he
  refine safe_client (T := fun _ _ _ => True) hremote readsFree_matching readRule_matching ?_
    (fun hnew _ => absurd hnew (Option.some_ne_none _).symm) (fun _ => trivial) ⟨hunwritten, h⟩
  rintro irs hs w _ ⟨⟩ hD ⟨d, now, rfl, hlook, hd⟩ -
  obtain ⟨hstore, hself, hbasis⟩ := hd hD
  exact safe_put_matching (applied_applyAll px setters (Irs.ofDefaultImpu d now)).existing
    (matching_applyAll hone hxml now hD hstore hself hbasis) hlook.matchesAt

/-! ### Every run -/

section Run

variable {ι : Type} [DecidableEq ι]

/-- In every run of any number of clients, each with one document for `D`, in which the
clients read again only records that are similar to their basis, every version of the record
at `D` matches its profile. `is` is the whole run, and `is₁` any part of it from the start. -/
theorem record_matches_profile (px : XmlParser) (cache : MemcachedCache)
    (hremote : cache.remoteStores = []) (D : String) (lookups : ι → Lookup)
    (setters : ι → List Setter) (xmls : ι → String)
    (hone : ∀ i, (setters i).filterMap Setter.imsSubXml? = [xmls i])
    (hxml : ∀ i, px.getDefaultId (xmls i) "" = D) (w : World)
    (hmatch : MatchesAt px cache.localStore D w) (is : List ι)
    (hmeets : Pool.Meets serve
      (fun i => ReadsSimilar cache.localStore D (px.getPublicIds (xmls i)) (setters i)) is
      (updatePool px cache D w lookups setters)) (is₁ : List ι) (hstart : is₁ <+: is) :
    MatchesAt px cache.localStore D
      (Pool.run serve is₁ (updatePool px cache D w lookups setters)).world := by
  obtain ⟨is₂, rfl⟩ := hstart
  have hstart : Pool.Sound serve
      (fun i => matching px cache.localStore D (px.getPublicIds (xmls i)) (setters i))
      (fun _ _ _ _ => True) (fun w _ => MatchesAt px cache.localStore D w)
      (updatePool px cache D w lookups setters) :=
    ⟨fun i => safe_client_matching hremote (hone i) (hxml i) _ hmatch, hmatch⟩
  have hsound := hstart.run
    (fun i j w tr o _ _ hg => ⟨serve_later_impus o w _, serve_later_mappings o w _, hg⟩)
    (fun i w tr o h hg => hg h) is₁ hmeets.of_append
  exact hsound.inv

end Run

/-- Three documents for one default identity: with no other identity, and with one. -/
def threeProfiles : XmlParser :=
  .ofTable [("none", ["sip:d@example.com"]), ("a", ["sip:d@example.com", "sip:a@example.com"]),
    ("b", ["sip:d@example.com", "sip:b@example.com"])]

/-- A record without associated IMPUs. -/
def bareRecord : DefaultImpuData where
  registrationState := true
  serviceProfile := "none"
  expiry := 100
  assocImpu := []
  impis := []
  ecfs := []
  ccfs := []

/-- A store with that record only. -/
def bareWorld : World := .ofTables [("sip:d@example.com", .default bareRecord)] []

theorem matchesAt_bareWorld : MatchesAt threeProfiles 0 "sip:d@example.com" bareWorld := by
  refine ⟨bareRecord, by decide, fun x => ?_⟩
  have hids : threeProfiles.getPublicIds bareRecord.serviceProfile = ["sip:d@example.com"] := by
    decide
  rw [hids]
  simp [bareRecord]

/-- Two clients on that store, with the documents they set. -/
def pushPool (setters : Bool → List Setter) :
    Pool Bool Call Call.Resp World (Option (Status × Irs)) :=
  updatePool threeProfiles ⟨0, []⟩ "sip:d@example.com" bareWorld
    (fun _ => .byImpu "sip:d@example.com") setters

/-- A client that reads the record before the other one writes it, and writes after it. -/
def overtakenSchedule : List Bool := [false, false] ++ List.replicate 8 true ++ List.replicate 10 false

/-- A registration and a profile push with the same document. -/
def sameDocument : Bool → List Setter
  | true => [.setImsSubXml "a", .setTtl 300]
  | false => [.setImsSubXml "a"]

theorem record_matches_profile_sameDocument :
    MatchesAt threeProfiles 0 "sip:d@example.com"
      (Pool.run serve overtakenSchedule (pushPool sameDocument)).world :=
  record_matches_profile threeProfiles ⟨0, []⟩ rfl "sip:d@example.com" _ sameDocument
    (fun _ => "a") (by decide) (by decide) bareWorld matchesAt_bareWorld overtakenSchedule
    (by decide) overtakenSchedule (List.prefix_refl _)

/-- Two profile pushes with different documents. -/
def differentDocuments : Bool → List Setter
  | true => [.setImsSubXml "a"]
  | false => [.setImsSubXml "b"]

/-- The second push has to merge. It keeps its own document, and takes over the associated
IMPU of the other one. -/
theorem profile_mismatch_by_merge :
    (∀ i, ∃ xml, (differentDocuments i).filterMap Setter.imsSubXml? = [xml] ∧
        threeProfiles.getDefaultId xml "" = "sip:d@example.com") ∧
      MatchesAt threeProfiles 0 "sip:d@example.com" bareWorld ∧
      ¬ MatchesAt threeProfiles 0 "sip:d@example.com"
        (Pool.run serve overtakenSchedule (pushPool differentDocuments)).world := by
  refine ⟨fun i => ?_, matchesAt_bareWorld, ?_⟩
  · cases i with
    | true => exact ⟨"a", rfl, by decide⟩
    | false => exact ⟨"b", rfl, by decide⟩
  · rintro ⟨d, hd, hmatch⟩
    have hrecord : ((Pool.run serve overtakenSchedule
        (pushPool differentDocuments)).world.stores 0).defaultAt "sip:d@example.com"
        = some { bareRecord with
            serviceProfile := "b"
            assocImpu := ["sip:a@example.com", "sip:b@example.com"] } := by decide
    rw [hrecord] at hd
    cases hd
    have hmem := ((hmatch "sip:a@example.com").mp (by decide)).1
    exact absurd hmem (by decide)

end Homestead

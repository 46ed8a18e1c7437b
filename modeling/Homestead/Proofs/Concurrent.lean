import Homestead.Model.Flows
import Homestead.Proofs.Calls
import Homestead.Proofs.SoloGet

/-!
# `Homestead.Proofs.Concurrent`: rules for the cache among other clients

The programs of the cache with other clients active between any two of their store calls.
Each rule is for any contract whose guarantee allows reads (`ReadsFree`), and asks of the
contract only what the program does with the store. What it asks is a structure of its own:
`ReadRule`, `UpdateRule`, `AssociatedRule`, `MappingRule`.

* `safe_lookup`: a lookup returns what the store held at some moment of the run.
* `safe_updateIrsImpu`: the loop of `perform_irs_impu_action` for `set_impu`.
* `safe_createIrsImpu`: the blind write and the add of a new IRS.
* `safe_updateIrsAssociatedImpus` and `safe_updateIrsImpiMappings`: the two later operations
  of a put.
* `safe_putIrsAction` puts the three together, and `safe_client` is a lookup with a put.
-/

set_option autoImplicit false

namespace Homestead

open CacheProg

/-! ### Reads -/

section Rules

variable {C : Contract Call Call.Resp World}

/-- The guarantee of the contract allows every read. -/
def ReadsFree (C : Contract Call Call.Resp World) : Prop :=
  ∀ hs w o, o.IsRead → C.guar hs w o

/-- An assertion that neither the other clients nor the client's own reads can break. -/
structure Stable (C : Contract Call Call.Resp World) (A : History → World → Prop) : Prop where
  rely : ∀ {hs w w'}, A hs w → C.rely w w' → A hs w'
  read : ∀ {hs w o}, A hs w → o.IsRead → A (hs.add o w) (serve o w).2

/-- An assertion that neither the other clients nor a clock reading can break. -/
structure Steady (C : Contract Call Call.Resp World) (A : History → World → Prop) : Prop where
  rely : ∀ {hs w w'}, A hs w → C.rely w w' → A hs w'
  time : ∀ {hs w}, A hs w → A (hs.add .time w) w.tick

theorem Stable.steady {A : History → World → Prop} (h : Stable C A) : Steady C A :=
  ⟨h.rely, fun hA => h.read (o := .time) hA trivial⟩

/-- One read in front of a program. -/
theorem safe_read {α : Type} (hreads : ReadsFree C) {A : History → World → Prop}
    (hA : Stable C A) {Q : α → History → World → Prop} {o : Call} (ho : o.IsRead)
    {k : o.Resp → CacheProg α} {hs : History} {w : World} (h : A hs w)
    (hk : ∀ w', C.rely w w' → A hs w' → C.assume hs w' o → A (hs.add o w') (serve o w').2 →
      Safe serve C Q (k (serve o w').1) (hs.add o w') (serve o w').2) :
    Safe serve C Q (.call o k) hs w :=
  .call fun w' hr ha => ⟨hreads hs w' o ho, hk w' hr (hA.rely h hr) ha (hA.read (hA.rely h hr) ho)⟩

/-- A clock reading in front of a program. -/
theorem safe_timeNow {α : Type} (hreads : ReadsFree C) {A : History → World → Prop}
    (hA : Stable C A) {Q : α → History → World → Prop} {k : Int → CacheProg α} {hs : History}
    {w : World} (h : A hs w)
    (hk : ∀ now hs' w', A hs' w' → Safe serve C Q (k now) hs' w') :
    Safe serve C Q (timeNow >>= k) hs w :=
  safe_read hreads hA (show Call.IsRead .time from trivial) h fun _ _ _ _ h' => hk _ _ _ h'

/-! ### Lookups -/

theorem getImpuForImpuGr_local {cache : MemcachedCache} (hremote : cache.remoteStores = [])
    (impu : String) : cache.getImpuForImpuGr impu = getImpu cache.localStore impu := by
  unfold MemcachedCache.getImpuForImpuGr
  simp only [hremote, Prog.forEach_nil, Prog.pure_def, ite_self]
  exact Prog.bind_ret _

theorem getImpiMappingGr_local {cache : MemcachedCache} (hremote : cache.remoteStores = [])
    (impi : String) : cache.getImpiMappingGr impi = getImpiMapping cache.localStore impi := by
  unfold MemcachedCache.getImpiMappingGr
  simp only [hremote, MemcachedCache.getImpiMappingRemote, Prog.pure_def, ite_self]
  exact Prog.bind_ret _

/-- What a lookup says of the record it has found, at the read and from then on. -/
structure ReadRule (C : Contract Call Call.Resp World) (s : StoreId)
    (A : History → World → Prop) (P : DefaultImpu → History → World → Prop) : Prop where
  stable : Stable C A
  found : ∀ {hs w impu d}, A hs w → C.assume hs w (.getImpu s impu) →
    (w.stores s).getImpu s impu = (.ok, some (.default d)) → P d (hs.add (.getImpu s impu) w) w
  rely : ∀ {d hs w w'}, P d hs w → C.rely w w' → P d hs w'
  time : ∀ {d hs w}, P d hs w → P d (hs.add .time w) w.tick

variable {cache : MemcachedCache} {A : History → World → Prop}
variable {P : DefaultImpu → History → World → Prop} {hs : History} {w : World}

/-- One read of a record. -/
theorem safe_getImpu (hreads : ReadsFree C) {s : StoreId} (hrule : ReadRule C s A P)
    (impu : String) (h : A hs w) :
    Safe serve C (fun r hs' w' => A hs' w' ∧ IsAnswer r ∧
      ∀ d, r = (.ok, some (.default d)) → P d hs' w') (getImpu s impu) hs w := by
  refine safe_read hreads hrule.stable (show Call.IsRead (.getImpu s impu) from trivial) h ?_
  intro w₁ _ h₁ ha h₁'
  refine .ret fun w' hr => ⟨hrule.stable.rely h₁' hr, ImpuStore.isAnswer_getImpu _ _ _, ?_⟩
  intro d hd
  exact hrule.rely (hrule.found h₁ ha hd) hr

/-- The record a lookup ends with is one that a read of this run has found. -/
theorem safe_getDefaultImpuForImpu (hremote : cache.remoteStores = []) (hreads : ReadsFree C)
    (hrule : ReadRule C cache.localStore A P) (impu : String) (h : A hs w) :
    Safe serve C (fun r hs' w' => A hs' w' ∧ IsAnswer r ∧ ∀ d, r = (.ok, some d) → P d hs' w')
      (cache.getDefaultImpuForImpu impu) hs w := by
  unfold MemcachedCache.getDefaultImpuForImpu
  simp only [getImpuForImpuGr_local hremote]
  refine (safe_getImpu hreads hrule impu h).bind fun r hs₁ w₁ hq => ?_
  obtain ⟨h₁, hr, -⟩ := hq w₁ (C.rely_refl w₁)
  cases hr with
  | notFound => exact .ret fun w' hr => ⟨hrule.stable.rely h₁ hr, .notFound, by simp⟩
  | error => exact .ret fun w' hr => ⟨hrule.stable.rely h₁ hr, .error, by simp⟩
  | found x =>
    cases x with
    | default d =>
      refine .ret fun w' hr => ⟨hrule.stable.rely h₁ hr, .found d, ?_⟩
      rintro d' ⟨⟩
      exact (hq w' hr).2.2 d rfl
    | associated a =>
      -- The second read is of the default IMPU that the associated record points at.
      refine (safe_getImpu hreads hrule a.defaultImpu h₁).bind fun target hs₂ w₂ hq₂ => ?_
      refine .ret fun w' hr => ?_
      obtain ⟨h₂, hanswer, hfound⟩ := hq₂ w' hr
      refine ⟨h₂, MemcachedCache.isAnswer_checkTarget impu hanswer, fun d hd => hfound d ?_⟩
      cases hanswer with
      | notFound => cases hd
      | error => cases hd
      | found x =>
        cases x with
        | associated a' => cases hd
        | default d' =>
          unfold MemcachedCache.checkTarget at hd
          dsimp only at hd
          split at hd
          · cases hd
            rfl
          · cases hd

/-- The IRS was built from a record that a read of this run has found. -/
def BuiltFrom (P : DefaultImpu → History → World → Prop) (irs : Irs) (hs : History)
    (w : World) : Prop :=
  ∃ d now, irs = Irs.ofDefaultImpu d now ∧ P d hs w

theorem safe_getImplicitRegistrationSetForImpu (hremote : cache.remoteStores = [])
    (hreads : ReadsFree C) (hrule : ReadRule C cache.localStore A P) (impu : String)
    (h : A hs w) :
    Safe serve C (fun r hs' w' => A hs' w' ∧ IsAnswer r ∧
      ∀ irs, r = (.ok, some irs) → BuiltFrom P irs hs' w')
      (cache.getImplicitRegistrationSetForImpu impu) hs w := by
  unfold MemcachedCache.getImplicitRegistrationSetForImpu
  refine (safe_getDefaultImpuForImpu hremote hreads hrule impu h).bind fun r hs₁ w₁ hq => ?_
  obtain ⟨h₁, hr, hfound⟩ := hq w₁ (C.rely_refl w₁)
  cases hr with
  | notFound => exact .ret fun w' hr => ⟨hrule.stable.rely h₁ hr, .notFound, by simp⟩
  | error => exact .ret fun w' hr => ⟨hrule.stable.rely h₁ hr, .error, by simp⟩
  | found d =>
    refine .call fun w₂ hr₂ _ => ⟨hreads _ _ _ trivial, .ret fun w' hr => ?_⟩
    have h₂ := hrule.stable.rely h₁ hr₂
    have hd := hrule.time (hrule.rely (hfound d rfl) hr₂)
    refine ⟨hrule.stable.rely (hrule.stable.read h₂ trivial) hr, .found _, ?_⟩
    rintro irs ⟨⟩
    exact ⟨d, _, rfl, hrule.rely hd hr⟩

/-- The loop over the IMPUs of a mapping ends with the first IRS it finds. -/
theorem safe_impusLoop (hremote : cache.remoteStores = []) (hreads : ReadsFree C)
    (hrule : ReadRule C cache.localStore A P) (impus : List String) (h : A hs w) :
    Safe serve C (fun r hs' w' => A hs' w' ∧ ∀ irs ∈ r.2, BuiltFrom P irs hs' w')
      (BaseHssCache.impusLoop cache.getImplicitRegistrationSetForImpu impus []) hs w := by
  induction impus generalizing hs w with
  | nil => exact .ret fun w' hr => ⟨hrule.stable.rely h hr, by simp⟩
  | cons impu impus ih =>
    unfold BaseHssCache.impusLoop
    refine (safe_getImplicitRegistrationSetForImpu hremote hreads hrule impu h).bind ?_
    intro r hs₁ w₁ hq
    obtain ⟨h₁, hr, -⟩ := hq w₁ (C.rely_refl w₁)
    cases hr with
    | notFound => exact ih h₁
    | error => exact .ret fun w' hr => ⟨hrule.stable.rely h₁ hr, by simp⟩
    | found irs =>
      refine .ret fun w' hr => ⟨hrule.stable.rely h₁ hr, fun irs' hirs' => ?_⟩
      obtain rfl : irs' = irs := by simpa using hirs'
      exact (hq w' hr).2.2 irs' rfl

theorem safe_getImpusForImpi (hremote : cache.remoteStores = []) (hreads : ReadsFree C)
    (hA : Stable C A) (impi : String) (h : A hs w) :
    Safe serve C (fun _ hs' w' => A hs' w') (cache.getImpusForImpi impi) hs w := by
  unfold MemcachedCache.getImpusForImpi
  rw [getImpiMappingGr_local hremote]
  have hread : Safe serve C (fun _ hs' w' => A hs' w')
      (getImpiMapping cache.localStore impi) hs w :=
    safe_read hreads hA (show Call.IsRead (.getImpiMapping cache.localStore impi) from trivial) h
      fun _ _ _ _ h₁ => .ret fun _ hr => hA.rely h₁ hr
  refine hread.bind fun found hs₁ w₁ hq => ?_
  split
  · exact .ret hq
  · exact .ret hq

/-- Every IRS that a lookup answers was built from a record that a read of this run has
found. -/
theorem safe_lookup (hremote : cache.remoteStores = []) (hreads : ReadsFree C)
    (hrule : ReadRule C cache.localStore A P) (l : Lookup) (h : A hs w) :
    Safe serve C (fun r hs' w' => A hs' w' ∧ ∀ irs ∈ r.2, BuiltFrom P irs hs' w')
      (cache.lookup l) hs w := by
  cases l with
  | byImpu impu =>
    refine (safe_getImplicitRegistrationSetForImpu hremote hreads hrule impu h).bind ?_
    intro r hs₁ w₁ hq
    refine .ret fun w' hr => ?_
    obtain ⟨h₁, hanswer, hfound⟩ := hq w' hr
    refine ⟨h₁, fun irs hirs => ?_⟩
    cases hanswer with
    | notFound => cases hirs
    | error => cases hirs
    | found irs' =>
      obtain rfl : irs = irs' := by simpa using hirs
      exact hfound irs rfl
  | byImpi impi =>
    show Safe serve C _ (BaseHssCache.getImplicitRegistrationSetsForImpi _ _ impi []) hs w
    unfold BaseHssCache.getImplicitRegistrationSetsForImpi
    refine (safe_getImpusForImpi hremote hreads hrule.stable impi h).bind fun r hs₁ w₁ hq => ?_
    have h₁ := hq w₁ (C.rely_refl w₁)
    split
    · refine (safe_impusLoop hremote hreads hrule r.2 h₁).bind fun r' hs₂ w₂ hq₂ => ?_
      refine .ret fun w' hr => ⟨(hq₂ w' hr).1, fun irs hirs => (hq₂ w' hr).2 irs ?_⟩
      -- An error on the way leaves no IRS at all.
      unfold BaseHssCache.clearOnError at hirs
      split at hirs
      · exact hirs
      · cases hirs
    · exact .ret fun w' hr => ⟨hrule.stable.rely h₁ hr, by simp⟩

/-! ### The record of the default IMPU -/

/-- A compare-and-set write of a default IMPU record. -/
def Call.setsDefault (s : StoreId) : Call → Bool
  | .setImpu s' (.default _) => decide (s' = s)
  | _ => false

/-- The client has tried to write a default IMPU record. -/
def History.Attempted (s : StoreId) (hs : History) : Prop :=
  ∃ e ∈ hs, Call.setsDefault s e.1 = true

/-- What a contract needs to know of the loop of `perform_irs_impu_action` for `set_impu`.
`K irs` is what the client keeps of the IRS from pass to pass, `F irs c` allows it to write
with the CAS value `c`, and `Q irs` is what a write that succeeds leaves. `B` is what follows
when an associated IMPU is in the way of an IRS that is not refreshed. An IRS of this store is
read again only after a write was tried. -/
structure UpdateRule (C : Contract Call Call.Resp World) (s : StoreId)
    (K : Irs → History → World → Prop) (F : Irs → Nat → History → World → Prop)
    (Q : Irs → History → World → Prop) (B : Prop) : Prop where
  keep : ∀ irs, Steady C (K irs)
  fresh : ∀ irs c, Steady C (F irs c)
  done : ∀ {irs hs w w'}, Q irs hs w → C.rely w w' → Q irs hs w'
  absent : ∀ {irs hs w} {o : Call}, o = .getImpu s irs.defaultImpu → K irs hs w →
    (irs.store = some s → hs.Attempted s) → C.assume hs w o →
    ((w.stores s).getImpu s irs.defaultImpu).2 = none →
    K irs (hs.add o w) w ∧ F irs 0 (hs.add o w) w
  merge : ∀ {irs hs w d} {o : Call}, o = .getImpu s irs.defaultImpu → K irs hs w →
    (irs.store = some s → hs.Attempted s) → C.assume hs w o →
    (w.stores s).getImpu s irs.defaultImpu = (.ok, some (.default d)) → ∀ now,
    K (irs.updateFromImpuFromStore d now) (hs.add o w) w ∧
      F (irs.updateFromImpuFromStore d now) d.cas (hs.add o w) w
  replace : ∀ {irs hs w a} {o : Call}, o = .getImpu s irs.defaultImpu → K irs hs w →
    (irs.store = some s → hs.Attempted s) → C.assume hs w o →
    (w.stores s).getImpu s irs.defaultImpu = (.ok, some (.associated a)) →
    irs.refreshed = true → K irs (hs.add o w) w ∧ F irs a.cas (hs.add o w) w
  blocked : ∀ {irs hs w a}, K irs hs w →
    (w.stores s).getImpu s irs.defaultImpu = (.ok, some (.associated a)) →
    irs.refreshed = false → B
  write : ∀ {irs hs w c store now} {o : Call},
    o = .setImpu s (.default (irs.createImpu c store now)) → K irs hs w → F irs c hs w →
    C.assume hs w o → C.guar hs w o ∧
      ((w.stores s).impus.version irs.defaultImpu = c → Q irs (hs.add o w) (serve o w).2) ∧
      ((w.stores s).impus.version irs.defaultImpu ≠ c → K irs (hs.add o w) w)

section Update

variable {s : StoreId} {K : Irs → History → World → Prop}
variable {F : Irs → Nat → History → World → Prop} {Q : Irs → History → World → Prop} {B : Prop}

/-- What a pass of the loop leaves: the write succeeded, or it met contention and the loop
goes round, or an associated IMPU was in the way. -/
def PassDone (s : StoreId) (K Q : Irs → History → World → Prop) (B : Prop)
    (st : ImpuActionState) (hs : History) (w : World) : Prop :=
  st.impu = none ∧ (st.status = .ok ∧ Q st.irs hs w ∨
    st.status = .dataContention ∧ K st.irs hs w ∧ hs.Attempted s ∨ st.status = .error ∧ B)

/-- The write at the end of a pass. -/
theorem safe_apply_setImpu (hrule : UpdateRule C s K F Q B) {irs : Irs} {c : Nat}
    (store : Option StoreId) (now : Int) (hK : K irs hs w) (hF : F irs c hs w) :
    Safe serve C (PassDone s K Q B)
      (IrsImpuAction.setImpu.apply s (irs.createImpu c store now) >>= fun status =>
        pure { status := status, irs := irs, impu := none }) hs w := by
  refine .call fun w₁ hr ha => ?_
  have hwrite := hrule.write rfl ((hrule.keep irs).rely hK hr) ((hrule.fresh irs c).rely hF hr) ha
  refine ⟨hwrite.1, .ret fun w' hr' => ⟨rfl, ?_⟩⟩
  rcases serve_setImpu_cases w₁ s (.default (irs.createImpu c store now)) with
    ⟨hv, hok, -⟩ | ⟨hv, hcont, hworld⟩
  · exact .inl ⟨hok, hrule.done (hwrite.2.1 hv) hr'⟩
  · rw [hworld] at hr'
    refine .inr (.inl ⟨hcont, (hrule.keep irs).rely (hwrite.2.2 hv) hr', ?_⟩)
    exact ⟨_, List.mem_append_right _ List.mem_cons_self, decide_eq_true rfl⟩

/-- A clock reading and the write. -/
theorem safe_timedWrite (hreads : ReadsFree C) (hrule : UpdateRule C s K F Q B) {irs : Irs}
    {c : Nat} (store : Option StoreId) (hK : K irs hs w) (hF : F irs c hs w) :
    Safe serve C (PassDone s K Q B)
      (timeNow >>= fun now => IrsImpuAction.setImpu.apply s (irs.createImpu c store now) >>=
        fun status => pure { status := status, irs := irs, impu := none }) hs w := by
  refine .call fun w₁ hr _ => ⟨hreads _ _ _ trivial, ?_⟩
  have hK₁ := (hrule.keep irs).time ((hrule.keep irs).rely hK hr)
  have hF₁ := (hrule.fresh irs c).time ((hrule.fresh irs c).rely hF hr)
  exact safe_apply_setImpu hrule store _ hK₁ hF₁

/-- The pass that reads the record first. -/
theorem safe_rereadPass (hreads : ReadsFree C) (hrule : UpdateRule C s K F Q B) {irs : Irs}
    (hK : K irs hs w) (htried : irs.store = some s → hs.Attempted s) :
    Safe serve C (PassDone s K Q B) (rereadPass .setImpu s irs) hs w := by
  unfold rereadPass
  have hread : Safe serve C (fun r hs' w' => IsAnswer r ∧
      (r.2 = none → K irs hs' w' ∧ F irs 0 hs' w') ∧
      (∀ d, r.2 = some (.default d) → ∀ now, K (irs.updateFromImpuFromStore d now) hs' w' ∧
        F (irs.updateFromImpuFromStore d now) d.cas hs' w') ∧
      (∀ a, r.2 = some (.associated a) → irs.refreshed = true →
        K irs hs' w' ∧ F irs a.cas hs' w') ∧
      (∀ a, r.2 = some (.associated a) → irs.refreshed = false → B))
      (getImpu s irs.defaultImpu) hs w := by
    refine .call fun w₁ hr ha => ⟨hreads _ _ _ trivial, .ret fun w' hr' => ?_⟩
    have hK₁ := (hrule.keep irs).rely hK hr
    have hanswer := ImpuStore.isAnswer_getImpu (w₁.stores s) s irs.defaultImpu
    have hkeep : ∀ {irs' c hs'}, K irs' hs' w₁ ∧ F irs' c hs' w₁ → K irs' hs' w' ∧ F irs' c hs' w' :=
      fun h => ⟨(hrule.keep _).rely h.1 hr', (hrule.fresh _ _).rely h.2 hr'⟩
    refine ⟨hanswer, fun hnone => ?_, fun d hd now => ?_, fun a haa href => ?_, fun a haa href => ?_⟩
    · exact hkeep (hrule.absent rfl hK₁ htried ha hnone)
    · exact hkeep (hrule.merge rfl hK₁ htried ha (hanswer.eq_of_snd hd) now)
    · exact hkeep (hrule.replace rfl hK₁ htried ha (hanswer.eq_of_snd haa) href)
    · exact hrule.blocked hK₁ (hanswer.eq_of_snd haa) href
  refine hread.bind fun r hs₁ w₁ hq => ?_
  obtain ⟨-, hnone, hdefault, hassoc, hblocked⟩ := hq w₁ (C.rely_refl w₁)
  -- The three branches of the source: nothing there, a default IMPU, an associated IMPU.
  cases hr : r.2 with
  | none => exact safe_timedWrite hreads hrule none (hnone hr).1 (hnone hr).2
  | some x =>
    cases x with
    | default d =>
      have hwrite : ∀ now hs₂ w₂, K (irs.updateFromImpuFromStore d now) hs₂ w₂ →
          F (irs.updateFromImpuFromStore d now) d.cas hs₂ w₂ → Safe serve C (PassDone s K Q B)
            ((irs.updateFromImpuFromStore d now).getImpuFromImpu d.cas d.store >>= fun impu =>
              IrsImpuAction.setImpu.apply s impu >>= fun status => pure
                { status := status, irs := irs.updateFromImpuFromStore d now, impu := none })
            hs₂ w₂ :=
        fun now hs₂ w₂ hK₂ hF₂ => safe_timedWrite hreads hrule d.store hK₂ hF₂
      show Safe serve C _ (irs.mergeFromStore d >>= _) hs₁ w₁
      unfold Irs.mergeFromStore
      split
      · exact hwrite 0 _ _ (hdefault d hr 0).1 (hdefault d hr 0).2
      · refine .call fun w₂ hr₂ _ => ⟨hreads _ _ _ trivial, ?_⟩
        have hmerge := hdefault d hr (w₂.clock 0)
        exact hwrite _ _ _ ((hrule.keep _).time ((hrule.keep _).rely hmerge.1 hr₂))
          ((hrule.fresh _ _).time ((hrule.fresh _ _).rely hmerge.2 hr₂))
    | associated a =>
      show Safe serve C _ (if irs.refreshed then _ else _) hs₁ w₁
      split
      · rename_i href
        exact safe_timedWrite hreads hrule a.store (hassoc a hr href).1 (hassoc a hr href).2
      · rename_i href
        have hB := hblocked a hr (by simpa using href)
        exact .ret fun w' hr' => ⟨rfl, .inr (.inr ⟨rfl, hB⟩)⟩

/-- `update_irs_impu` among other clients. It ends with a write that succeeded, or with an
error and without one. -/
theorem safe_updateIrsImpu (hreads : ReadsFree C) (hrule : UpdateRule C s K F Q B) {irs : Irs}
    (hK : K irs hs w) (hF : irs.store = some s → F irs irs.cas hs w) :
    Safe serve C (fun r hs' w' => r.1 = .ok ∧ Q r.2 hs' w' ∨ r.1 = .error ∧ B)
      (updateIrsImpu irs s) hs w := by
  unfold updateIrsImpu performIrsImpuAction
  -- A pass starts from `K`. It has a record with a CAS value that may be written, or it
  -- reads the store first.
  let Inv : ImpuActionState → History → World → Prop := fun st hs w =>
    K st.irs hs w ∧
      (∀ d, st.impu = some d → ∃ c store now, d = st.irs.createImpu c store now ∧ F st.irs c hs w) ∧
      (st.impu = none → st.irs.store = some s → hs.Attempted s)
  have hloop : ∀ st hs w, Inv st hs w → Safe serve C
      (fun st' hs' w' => st'.status = .ok ∧ Q st'.irs hs' w' ∨ st'.status = .error ∧ B)
      (Prog.loop (impuActionPass .setImpu s) (fun s => s.status.isContention) st) hs w := by
    intro st hs w hst
    refine Safe.loop Inv ?_ hst
    rintro st hs w ⟨hK, hrecord, hreread⟩
    have hpass : Safe serve C (PassDone s K Q B) (impuActionPass .setImpu s st) hs w := by
      unfold impuActionPass
      cases himpu : st.impu with
      | none => exact safe_rereadPass hreads hrule hK (hreread himpu)
      | some d =>
        obtain ⟨c, store, now, rfl, hF⟩ := hrecord d himpu
        exact safe_apply_setImpu hrule store now hK hF
    refine hpass.weaken fun st' hs' w' hdone => ?_
    obtain ⟨himpu, ⟨hok, hQ⟩ | ⟨hcont, hK', htried⟩ | ⟨herr, hB⟩⟩ := hdone
    · rw [hok]
      exact .inl ⟨rfl, hQ⟩
    · rw [hcont]
      refine ⟨hK', fun d hd => ?_, fun _ _ => htried⟩
      rw [himpu] at hd
      cases hd
    · rw [herr]
      exact .inr ⟨rfl, hB⟩
  have hstart : ∀ impu hs w, Inv { status := .ok, irs := irs, impu := impu } hs w →
      Safe serve C (fun r hs' w' => r.1 = .ok ∧ Q r.2 hs' w' ∨ r.1 = .error ∧ B)
        (Prog.loop (impuActionPass .setImpu s) (fun s => s.status.isContention)
          { status := .ok, irs := irs, impu := impu } >>= fun st => pure (st.status, st.irs))
        hs w :=
    fun impu hs w hinv => (hloop _ hs w hinv).bind fun st hs' w' hq => .ret hq
  show Safe serve C _ (irs.getImpuForStore s >>= _) hs w
  unfold Irs.getImpuForStore
  split
  · rename_i hstore
    refine .call fun w₁ hr _ => ⟨hreads _ _ _ trivial, hstart _ _ _ ⟨?_, fun d hd => ?_, ?_⟩⟩
    · exact (hrule.keep irs).time ((hrule.keep irs).rely hK hr)
    · obtain rfl := Option.some.inj hd
      exact ⟨irs.cas, irs.store, _, rfl,
        (hrule.fresh irs _).time ((hrule.fresh irs _).rely (hF hstore) hr)⟩
    · intro hnone
      cases hnone
  · rename_i hstore
    refine hstart _ _ _ ⟨hK, fun d hd => ?_, fun _ h => absurd h hstore⟩
    cases hd

/-- `create_irs_impu` among other clients: a blind write of a registered IRS, an add of
any other. -/
theorem safe_createIrsImpu (hreads : ReadsFree C) {R : History → World → Prop} {irs : Irs}
    (hA : Stable C A) (hR : ∀ {hs w w'}, R hs w → C.rely w w' → R hs w')
    (hput : ∀ {hs w now} {o : Call}, irs.registrationState = .registered →
      o = .setImpuWithoutCas s (.default (irs.createImpu 0 none now)) → A hs w →
      C.assume hs w o → C.guar hs w o ∧ R (hs.add o w) (serve o w).2)
    (hadd : ∀ {hs w now} {o : Call}, irs.registrationState ≠ .registered →
      o = .addImpu s (.default (irs.createImpu 0 none now)) → A hs w →
      C.assume hs w o → C.guar hs w o ∧ R (hs.add o w) (serve o w).2)
    (h : A hs w) : Safe serve C (fun r hs' w' => r = .ok ∧ R hs' w') (createIrsImpu irs s) hs w := by
  refine safe_timeNow hreads hA h fun now hs₁ w₁ h₁ => ?_
  show Safe serve C _ (if irs.registrationState = .registered then _ else _) hs₁ w₁
  split
  · rename_i hreg
    refine .call fun w₂ hr ha => ?_
    have hstep := hput hreg rfl (hA.rely h₁ hr) ha
    exact ⟨hstep.1, .ret fun w' hr' => ⟨rfl, hR hstep.2 hr'⟩⟩
  · rename_i hreg
    have hanswer : Safe serve C (fun r hs' w' => (r = .ok ∨ r = .dataContention) ∧ R hs' w')
        (addImpu s (.default (irs.createImpu 0 none now))) hs₁ w₁ := by
      refine .call fun w₂ hr ha => ?_
      have hstep := hadd hreg rfl (hA.rely h₁ hr) ha
      refine ⟨hstep.1, .ret fun w' hr' => ⟨?_, hR hstep.2 hr'⟩⟩
      rcases serve_addImpu_cases w₂ s (.default (irs.createImpu 0 none now)) with
        ⟨-, hok, -⟩ | ⟨-, hcont, -⟩
      · exact .inl hok
      · exact .inr hcont
    refine hanswer.bind fun status hs₂ w₂ hq => ?_
    -- A conflict is reported as `OK`.
    obtain ⟨rfl | rfl, -⟩ := hq w₂ (C.rely_refl w₂)
    · exact .ret fun w' hr' => ⟨rfl, (hq w' hr').2⟩
    · exact .ret fun w' hr' => ⟨rfl, (hq w' hr').2⟩

end Update

/-! ### Associated IMPUs -/

/-- The contract lets the tables of the store move only forward between two calls. -/
structure RelyLater (C : Contract Call Call.Resp World) (s : StoreId) : Prop where
  impus : ∀ {w w'}, C.rely w w' → CasTable.Later (w.stores s).impus (w'.stores s).impus
  mappings : ∀ {w w'}, C.rely w w' → CasTable.Later (w.stores s).mappings (w'.stores s).mappings

/-- What a contract needs to know of `update_irs_associated_impus`. `I done` holds once the
associated IMPUs `done` have been written. The removals come first. -/
structure AssociatedRule (C : Contract Call Call.Resp World) (s : StoreId) (irs : Irs)
    (I : List String → History → World → Prop) : Prop where
  stable : ∀ done, Stable C (I done)
  write : ∀ {done hs w a} {o : Call}, o = .setImpuWithoutCas s (.associated a) →
    a.defaultImpu = irs.defaultImpu →
    (irs.associatedImpus[a.impu]? = some .added ∨
      irs.refreshed = true ∧ irs.associatedImpus[a.impu]? = some .unchanged) →
    I done hs w → C.assume hs w o →
    C.guar hs w o ∧ I (a.impu :: done) (hs.add o w) (serve o w).2
  remove : ∀ {hs w a} {o : Call}, o = .deleteImpu s (.associated a) →
    a.defaultImpu = irs.defaultImpu → irs.associatedImpus[a.impu]? = some .deleted →
    CasTable.Seen (w.stores s).impus a.impu a.cas (.decoded (.associated a.defaultImpu a.expiry)) →
    I [] hs w → C.assume hs w o → C.guar hs w o ∧ I [] (hs.add o w) (serve o w).2

section Associated

variable {s : StoreId} {irs : Irs} {I : List String → History → World → Prop}

theorem safe_removeAssociatedImpu (hreads : ReadsFree C) (hlater : RelyLater C s)
    (hrule : AssociatedRule C s irs I) {impu : String}
    (himpu : irs.associatedImpus[impu]? = some .deleted) (status : Status) (h : I [] hs w) :
    Safe serve C (fun _ hs' w' => I [] hs' w') (removeAssociatedImpu irs s impu status) hs w := by
  refine Safe.loop (fun _ hs w => I [] hs w) ?_ h
  intro st hs w h
  -- A pass keeps the invariant, whether or not the loop goes round.
  suffices hpass : Safe serve C (fun _ hs' w' => I [] hs' w')
      (removeAssociatedImpuPass irs s impu st) hs w from
    hpass.weaken fun _ _ _ h' => by split <;> exact h'
  unfold removeAssociatedImpuPass
  have hread : Safe serve C (fun r hs' w' => I [] hs' w' ∧ ∀ a, r.2 = some (.associated a) →
      a.impu = impu ∧ CasTable.Seen (w'.stores s).impus impu a.cas
        (.decoded (.associated a.defaultImpu a.expiry))) (getImpu s impu) hs w := by
    refine safe_read hreads (hrule.stable []) (show Call.IsRead (.getImpu s impu) from trivial) h ?_
    intro w₁ _ _ _ h₁
    refine .ret fun w' hr => ⟨(hrule.stable []).rely h₁ hr, fun a ha => ?_⟩
    have hanswer := (ImpuStore.isAnswer_getImpu (w₁.stores s) s impu).eq_of_snd ha
    obtain ⟨cas, data, hcell, hdata⟩ := ImpuStore.cells_of_getImpu hanswer
    cases data with
    | default d => cases hdata
    | associated D e =>
      cases hdata
      exact ⟨rfl, (CasTable.Seen.of_cells hcell).later (hlater.impus hr)⟩
  refine hread.bind fun r hs₁ w₁ hq => ?_
  obtain ⟨h₁, hseen⟩ := hq w₁ (C.rely_refl w₁)
  split
  · rename_i a hr
    split
    · rename_i hD
      obtain ⟨rfl, hseen⟩ := hseen a hr
      refine .call fun w₂ hr₂ ha => ?_
      have hstep := hrule.remove rfl hD himpu (hseen.later (hlater.impus hr₂))
        ((hrule.stable []).rely h₁ hr₂) ha
      exact ⟨hstep.1, .ret fun w' hr' => (hrule.stable []).rely hstep.2 hr'⟩
    · exact .ret fun w' hr' => (hrule.stable []).rely h₁ hr'
  · exact .ret fun w' hr' => (hrule.stable []).rely h₁ hr'

theorem safe_writeAssociatedImpu (hreads : ReadsFree C) (hrule : AssociatedRule C s irs I)
    {impu : String} (himpu : irs.associatedImpus[impu]? = some .added ∨
      irs.refreshed = true ∧ irs.associatedImpus[impu]? = some .unchanged)
    (status : Status) {done : List String} (h : I done hs w) :
    Safe serve C (fun _ hs' w' => I (impu :: done) hs' w')
      (writeAssociatedImpu irs s impu status) hs w := by
  refine safe_timeNow hreads (hrule.stable done) h fun now hs₁ w₁ h₁ => ?_
  refine .call fun w₂ hr ha => ?_
  have hstep := hrule.write rfl rfl himpu ((hrule.stable done).rely h₁ hr) ha
  exact ⟨hstep.1, .ret fun w' hr' => (hrule.stable _).rely hstep.2 hr'⟩

/-- `update_irs_associated_impus` among other clients. -/
theorem safe_updateIrsAssociatedImpus (hreads : ReadsFree C) (hlater : RelyLater C s)
    (hrule : AssociatedRule C s irs I) (h : I [] hs w) :
    Safe serve C (fun _ hs' w' => ∃ done, I done hs' w') (updateIrsAssociatedImpus irs s) hs w := by
  rw [updateIrsAssociatedImpus_eq]
  -- Refreshes and additions write the same records, so one lemma serves both loops.
  have hwrites : ∀ state, (∀ impu ∈ irs.impusIn state, irs.associatedImpus[impu]? = some .added ∨
      irs.refreshed = true ∧ irs.associatedImpus[impu]? = some .unchanged) →
      ∀ status hs w, (∃ done, I done hs w) → Safe serve C (fun _ hs' w' => ∃ done, I done hs' w')
        (Prog.forEach (irs.impusIn state) (writeAssociatedImpu irs s) status) hs w := by
    intro state hstate status hs w hI
    refine (Safe.forEach (fun todo _ hs w => (∀ impu ∈ todo, impu ∈ irs.impusIn state) ∧
      ∃ done, I done hs w) ?_ ?_ ⟨fun _ h => h, hI⟩).weaken fun _ _ _ h => h.2
    · rintro todo st hs w w' ⟨htodo, done, h⟩ hr
      exact ⟨htodo, done, (hrule.stable done).rely h hr⟩
    · rintro impu todo st hs w ⟨htodo, done, h⟩
      refine (safe_writeAssociatedImpu hreads hrule (hstate impu (htodo impu List.mem_cons_self))
        st h).weaken fun _ hs' w' h' => ⟨fun x hx => htodo x (List.mem_cons_of_mem _ hx), _, h'⟩
  -- The removals come first, before any record is written.
  have hremoves : Safe serve C (fun _ hs' w' => I [] hs' w')
      (Prog.forEach (irs.impusIn .deleted) (removeAssociatedImpu irs s) .ok) hs w := by
    refine (Safe.forEach (fun todo _ hs w => (∀ impu ∈ todo, impu ∈ irs.impusIn .deleted) ∧
      I [] hs w) ?_ ?_ ⟨fun _ h => h, h⟩).weaken fun _ _ _ h => h.2
    · rintro todo st hs w w' ⟨htodo, h⟩ hr
      exact ⟨htodo, (hrule.stable []).rely h hr⟩
    · rintro impu todo st hs w ⟨htodo, h⟩
      have himpu := Data.mem_elementsInState.mp (htodo impu List.mem_cons_self)
      refine (safe_removeAssociatedImpu hreads hlater hrule himpu st h).weaken
        fun _ hs' w' h' => ⟨fun x hx => htodo x (List.mem_cons_of_mem _ hx), h'⟩
  refine hremoves.bind fun status hs₁ w₁ hq => ?_
  have hrefresh : Safe serve C (fun _ hs' w' => ∃ done, I done hs' w')
      (if irs.refreshed then
        Prog.forEach (irs.impusIn .unchanged) (writeAssociatedImpu irs s) status
      else pure status) hs₁ w₁ := by
    split
    · rename_i href
      exact hwrites .unchanged (fun impu himpu => .inr ⟨href, Data.mem_elementsInState.mp himpu⟩)
        status hs₁ w₁ ⟨[], hq w₁ (C.rely_refl w₁)⟩
    · exact .ret fun w' hr => ⟨[], hq w' hr⟩
  refine hrefresh.bind fun status hs₂ w₂ hq₂ => ?_
  exact hwrites .added (fun impu himpu => .inl (Data.mem_elementsInState.mp himpu)) status hs₂ w₂
    (hq₂ w₂ (C.rely_refl w₂))

end Associated

/-! ### IMPI mappings -/

/-- The mapping `m` adds the default IMPU `D` to what a read has found under its key, or to
nothing. -/
def AddsTo (D : String) (t : CasTable String (Blob MappingData)) (m : ImpiMapping) : Prop :=
  D ∈ m.defaultImpus ∧
    (m.cas = 0 ∨ ∃ old, CasTable.Seen t m.impi m.cas (.decoded old) ∧
      ∀ x ∈ old.defaultImpus, x ∈ m.defaultImpus)

/-- The mapping `m` is what a read has found under its key, without `D`. -/
def RemovesFrom (D : String) (t : CasTable String (Blob MappingData)) (m : ImpiMapping) : Prop :=
  ∃ old, CasTable.Seen t m.impi m.cas (.decoded old) ∧
    m.defaultImpus = old.defaultImpus.filter (· ≠ D)

theorem AddsTo.later {D : String} {t t' : CasTable String (Blob MappingData)} {m : ImpiMapping}
    (h : AddsTo D t m) (hl : CasTable.Later t t') : AddsTo D t' m := by
  obtain ⟨hD, hzero | ⟨old, hseen, hold⟩⟩ := h
  · exact ⟨hD, .inl hzero⟩
  · exact ⟨hD, .inr ⟨old, hseen.later hl, hold⟩⟩

theorem addsTo_new (D impi : String) (expiry : Int) (t : CasTable String (Blob MappingData)) :
    AddsTo D t (.new impi D expiry) :=
  ⟨List.mem_singleton_self D, .inl rfl⟩

theorem addsTo_withDefaultImpu {D : String} (expiry : Int)
    {t : CasTable String (Blob MappingData)} {m : ImpiMapping}
    (h : CasTable.Seen t m.impi m.cas (.decoded m.toData)) :
    AddsTo D t (m.withDefaultImpu D expiry) := by
  refine ⟨?_, .inr ⟨m.toData, h, fun x (hx : x ∈ m.defaultImpus) => ?_⟩⟩
  · show D ∈ if D ∈ m.defaultImpus then m.defaultImpus else m.defaultImpus ++ [D]
    split
    · assumption
    · simp
  · show x ∈ if D ∈ m.defaultImpus then m.defaultImpus else m.defaultImpus ++ [D]
    split
    · exact hx
    · exact List.mem_append_left _ hx

theorem RemovesFrom.later {D : String} {t t' : CasTable String (Blob MappingData)}
    {m : ImpiMapping} (h : RemovesFrom D t m) (hl : CasTable.Later t t') : RemovesFrom D t' m := by
  obtain ⟨old, hseen, hold⟩ := h
  exact ⟨old, hseen.later hl, hold⟩

/-- What a contract needs to know of `update_irs_impi_mappings`. `I done` holds once the
mappings of the IMPIs `done` have the default IMPU. The removals come first. -/
structure MappingRule (C : Contract Call Call.Resp World) (s : StoreId) (irs : Irs)
    (I : List String → History → World → Prop) : Prop where
  stable : ∀ done, Stable C (I done)
  store : ∀ {done hs w m} {o : Call}, o = .setImpiMapping s m →
    (irs.impis[m.impi]? = some .added ∨
      irs.refreshed = true ∧ irs.impis[m.impi]? = some .unchanged) →
    AddsTo irs.defaultImpu (w.stores s).mappings m → I done hs w → C.assume hs w o →
    C.guar hs w o ∧
      ((w.stores s).mappings.version m.impi = m.cas →
        I (m.impi :: done) (hs.add o w) (serve o w).2) ∧
      ((w.stores s).mappings.version m.impi ≠ m.cas → I done (hs.add o w) w)
  present : ∀ {done hs w impi m} {o : Call}, o = .getImpiMapping s impi →
    irs.impis[impi]? = some .added → (w.stores s).getImpiMapping impi = (.ok, some m) →
    irs.defaultImpu ∈ m.defaultImpus → I done hs w → I (impi :: done) (hs.add o w) w
  error : ∀ {done hs w impi} {o : Call}, o = .getImpiMapping s impi →
    irs.impis[impi]? = some .added → (w.stores s).getImpiMapping impi = (.error, none) →
    I done hs w → I (impi :: done) (hs.add o w) w
  remove : ∀ {hs w m} {o : Call}, o = .setImpiMapping s m →
    irs.impis[m.impi]? = some .deleted → RemovesFrom irs.defaultImpu (w.stores s).mappings m →
    I [] hs w → C.assume hs w o → C.guar hs w o ∧ I [] (hs.add o w) (serve o w).2
  delete : ∀ {hs w m} {o : Call}, o = .deleteImpiMapping s m →
    irs.impis[m.impi]? = some .deleted → RemovesFrom irs.defaultImpu (w.stores s).mappings m →
    m.defaultImpus = [] → I [] hs w → C.assume hs w o →
    C.guar hs w o ∧ I [] (hs.add o w) (serve o w).2

section Mappings

variable {s : StoreId} {irs : Irs} {I : List String → History → World → Prop}

/-- One read of a mapping, with what it says from then on. -/
theorem safe_getImpiMapping (hreads : ReadsFree C) (hlater : RelyLater C s)
    (hA : Stable C A) (impi : String) (h : A hs w) :
    Safe serve C (fun r hs' w' => A hs' w' ∧ IsAnswer r ∧ ∀ m, r = (.ok, some m) → m.impi = impi ∧
      CasTable.Seen (w'.stores s).mappings impi m.cas (.decoded m.toData))
      (getImpiMapping s impi) hs w := by
  refine safe_read hreads hA (show Call.IsRead (.getImpiMapping s impi) from trivial) h ?_
  intro w₁ _ _ _ h₁
  refine .ret fun w' hr => ⟨hA.rely h₁ hr, ImpuStore.isAnswer_getImpiMapping _ _, fun m hm => ?_⟩
  obtain ⟨cas, data, hcell, rfl⟩ := ImpuStore.cells_of_getImpiMapping hm
  exact ⟨rfl, (CasTable.Seen.of_cells hcell).later (hlater.mappings hr)⟩

theorem safe_removeMapping (hreads : ReadsFree C) (hlater : RelyLater C s)
    (hrule : MappingRule C s irs I) {impi : String} (himpi : irs.impis[impi]? = some .deleted)
    (status : Status) (h : I [] hs w) :
    Safe serve C (fun _ hs' w' => I [] hs' w') (removeMapping irs s impi status) hs w := by
  refine Safe.loop (fun _ hs w => I [] hs w) ?_ h
  intro st hs w h
  suffices hpass : Safe serve C (fun _ hs' w' => I [] hs' w') (removeMappingPass irs s impi st) hs w
    from hpass.weaken fun _ _ _ h' => by split <;> exact h'
  refine (safe_getImpiMapping hreads hlater (hrule.stable []) impi h).bind fun r hs₁ w₁ hq => ?_
  obtain ⟨h₁, hr, hseen⟩ := hq w₁ (C.rely_refl w₁)
  have hskip : Safe serve C (fun _ hs' w' => I [] hs' w') (pure st) hs₁ w₁ :=
    .ret fun w' hr' => (hrule.stable []).rely h₁ hr'
  cases hr with
  | notFound => exact hskip
  | error => exact hskip
  | found m =>
    obtain ⟨rfl, hseen⟩ := hseen m rfl
    -- What is written back is the mapping that was read, without the default IMPU.
    have hremoves : RemovesFrom irs.defaultImpu (w₁.stores s).mappings
        (m.removeDefaultImpu irs.defaultImpu) := ⟨m.toData, hseen, rfl⟩
    have himpi : irs.impis[(m.removeDefaultImpu irs.defaultImpu).impi]? = some .deleted := himpi
    show Safe serve C _ (if m.hasDefaultImpu irs.defaultImpu then _ else _) hs₁ w₁
    split
    · -- An empty mapping is deleted, and any other is written back.
      show Safe serve C _ (if (m.removeDefaultImpu irs.defaultImpu).isEmpty then _ else _) hs₁ w₁
      split
      · rename_i hempty
        refine .call fun w₂ hr ha => ?_
        have hstep := hrule.delete rfl himpi (hremoves.later (hlater.mappings hr))
          (by simpa [ImpiMapping.isEmpty] using hempty) ((hrule.stable []).rely h₁ hr) ha
        exact ⟨hstep.1, .ret fun w' hr' => (hrule.stable []).rely hstep.2 hr'⟩
      · refine .call fun w₂ hr ha => ?_
        have hstep := hrule.remove rfl himpi (hremoves.later (hlater.mappings hr))
          ((hrule.stable []).rely h₁ hr) ha
        exact ⟨hstep.1, .ret fun w' hr' => (hrule.stable []).rely hstep.2 hr'⟩
    · exact hskip

/-- A write of a mapping that adds the default IMPU. -/
theorem safe_setImpiMapping (hlater : RelyLater C s) (hrule : MappingRule C s irs I)
    {m : ImpiMapping} (himpi : irs.impis[m.impi]? = some .added ∨
      irs.refreshed = true ∧ irs.impis[m.impi]? = some .unchanged) {done : List String}
    (hadds : AddsTo irs.defaultImpu (w.stores s).mappings m) (h : I done hs w) :
    Safe serve C (fun r hs' w' => r = .ok ∧ I (m.impi :: done) hs' w' ∨
      r = .dataContention ∧ I done hs' w' ∧ AddsTo irs.defaultImpu (w'.stores s).mappings m)
      (setImpiMapping s m) hs w := by
  refine .call fun w₁ hr ha => ?_
  have hadds₁ := hadds.later (hlater.mappings hr)
  have hstep := hrule.store rfl himpi hadds₁ ((hrule.stable done).rely h hr) ha
  refine ⟨hstep.1, .ret fun w' hr' => ?_⟩
  rcases serve_setImpiMapping_cases w₁ s m with ⟨hv, hok, -⟩ | ⟨hv, hcont, hworld⟩
  · exact .inl ⟨hok, (hrule.stable _).rely (hstep.2.1 hv) hr'⟩
  · rw [hworld] at hr'
    exact .inr ⟨hcont, (hrule.stable done).rely (hstep.2.2 hv) hr',
      hadds₁.later (hlater.mappings hr')⟩

theorem safe_refreshMapping (hreads : ReadsFree C) (hlater : RelyLater C s)
    (hrule : MappingRule C s irs I) {impi : String} (href : irs.refreshed = true)
    (himpi : irs.impis[impi]? = some .unchanged) (status : Status) {done : List String}
    (h : I done hs w) :
    Safe serve C (fun _ hs' w' => I (impi :: done) hs' w') (refreshMapping irs s impi status)
      hs w := by
  refine Safe.loop (fun _ hs w => I done hs w) ?_ h
  intro st hs w h
  refine (safe_getImpiMapping hreads hlater (hrule.stable done) impi h).bind fun r hs₁ w₁ hq => ?_
  obtain ⟨h₁, hr, hseen⟩ := hq w₁ (C.rely_refl w₁)
  refine .call fun w₂ hr₂ _ => ⟨hreads _ _ _ trivial, ?_⟩
  have h₂ := (hrule.stable done).read (o := .time) ((hrule.stable done).rely h₁ hr₂) trivial
  -- Whatever the read answers, the mapping that is written adds the default IMPU to it.
  have hadds : (refreshedMapping irs impi (w₂.clock 0) r).impi = impi ∧
      AddsTo irs.defaultImpu ((serve .time w₂).2.stores s).mappings
        (refreshedMapping irs impi (w₂.clock 0) r) := by
    cases hr with
    | notFound => exact ⟨rfl, addsTo_new _ _ _ _⟩
    | error => exact ⟨rfl, addsTo_new _ _ _ _⟩
    | found m =>
      obtain ⟨hm, hseen⟩ := hseen m rfl
      rw [refreshedMapping_found]
      rw [← hm] at hseen
      have hseen₂ := hseen.later (hlater.mappings hr₂)
      exact ⟨hm, addsTo_withDefaultImpu _ hseen₂⟩
  have himpi' : irs.impis[(refreshedMapping irs impi (w₂.clock 0) r).impi]? = some .unchanged := by
    rw [hadds.1]
    exact himpi
  refine (safe_setImpiMapping hlater hrule (.inr ⟨href, himpi'⟩) hadds.2 h₂).weaken ?_
  rintro r' hs' w' (⟨rfl, h'⟩ | ⟨rfl, h', -⟩)
  · rw [hadds.1] at h'
    exact h'
  · exact h'

/-- One pass of the loop that adds a mapping. -/
theorem safe_addMappingPass (hreads : ReadsFree C) (hlater : RelyLater C s)
    (hrule : MappingRule C s irs I) {impi : String} (himpi : irs.impis[impi]? = some .added)
    {st : AddMappingState} {done : List String} (hst : st.mapping.impi = impi)
    (hadds : AddsTo irs.defaultImpu (w.stores s).mappings st.mapping) (h : I done hs w) :
    Safe serve C (fun st' hs' w' =>
      st'.status = .dataContention ∧ I done hs' w' ∧ st'.mapping.impi = impi ∧
        AddsTo irs.defaultImpu (w'.stores s).mappings st'.mapping ∨
      st'.status ≠ .dataContention ∧ I (impi :: done) hs' w')
      (addMappingPass irs s impi st) hs w := by
  unfold addMappingPass
  have himpi' : irs.impis[st.mapping.impi]? = some .added := by rw [hst]; exact himpi
  refine (safe_setImpiMapping hlater hrule (.inl himpi') hadds h).bind fun r hs₁ w₁ hq => ?_
  rcases hq w₁ (C.rely_refl w₁) with ⟨rfl, h₁⟩ | ⟨rfl, h₁, hadds₁⟩
  · rw [hst] at h₁
    exact .ret fun w' hr => .inr ⟨nofun, (hrule.stable _).rely h₁ hr⟩
  -- After contention the mapping is read, and the next pass starts from what is there.
  have hread : Safe serve C (fun r hs' w' => IsAnswer r ∧ I done hs' w' ∧
      AddsTo irs.defaultImpu (w'.stores s).mappings st.mapping ∧
      (r = (.error, none) → I (impi :: done) hs' w') ∧
      ∀ m, r = (.ok, some m) → m.impi = impi ∧
        CasTable.Seen (w'.stores s).mappings m.impi m.cas (.decoded m.toData) ∧
        (irs.defaultImpu ∈ m.defaultImpus → I (impi :: done) hs' w'))
      (getImpiMapping s impi) hs₁ w₁ := by
    refine .call fun w₂ hr _ => ⟨hreads _ _ _ trivial, .ret fun w' hr' => ?_⟩
    have h₂ := (hrule.stable done).rely h₁ hr
    refine ⟨ImpuStore.isAnswer_getImpiMapping _ _, ?_, ?_, fun he => ?_, fun m hm => ?_⟩
    · exact (hrule.stable done).rely ((hrule.stable done).read h₂ trivial) hr'
    · exact (hadds₁.later (hlater.mappings hr)).later (hlater.mappings hr')
    · exact (hrule.stable _).rely (hrule.error rfl himpi he h₂) hr'
    · obtain ⟨cas, data, hcell, rfl⟩ := ImpuStore.cells_of_getImpiMapping hm
      refine ⟨rfl, (CasTable.Seen.of_cells hcell).later (hlater.mappings hr'), fun hD => ?_⟩
      exact (hrule.stable _).rely (hrule.present rfl himpi hm hD h₂) hr'
  refine hread.bind fun r hs₂ w₂ hq₂ => ?_
  obtain ⟨hanswer, h₂, hadds₂, herr, hfound⟩ := hq₂ w₂ (C.rely_refl w₂)
  cases hanswer with
  | notFound =>
    refine .ret fun w' hr => .inl ⟨rfl, (hrule.stable done).rely h₂ hr, hst, ?_⟩
    exact hadds₂.later (hlater.mappings hr)
  | error => exact .ret fun w' hr => .inr ⟨nofun, (hrule.stable _).rely (herr rfl) hr⟩
  | found m =>
    obtain ⟨hm, hseen, hpresent⟩ := hfound m rfl
    have hresolve : ∀ now hs' w', I done hs' w' → (I (impi :: done) hs₂ w₂ → I (impi :: done) hs' w') →
        CasTable.Seen (w'.stores s).mappings m.impi m.cas (.decoded m.toData) →
        (resolveMapping irs now m).status = .dataContention ∧ I done hs' w' ∧
          (resolveMapping irs now m).mapping.impi = impi ∧
          AddsTo irs.defaultImpu (w'.stores s).mappings (resolveMapping irs now m).mapping ∨
        (resolveMapping irs now m).status ≠ .dataContention ∧ I (impi :: done) hs' w' := by
      intro now hs' w' h' hkeep hseen'
      rw [resolveMapping_eq]
      dsimp only
      split
      · rename_i hgood
        exact .inr ⟨nofun, hkeep (hpresent hgood.1)⟩
      · exact .inl ⟨rfl, h', hm, addsTo_withDefaultImpu _ hseen'⟩
    refine .call fun w₃ hr₃ _ => ⟨hreads _ _ _ trivial, .ret fun w' hr' => ?_⟩
    have htime : ∀ done', I done' hs₂ w₂ → I done' (History.add hs₂ .time w₃) w' :=
      fun done' h' => (hrule.stable done').rely
        ((hrule.stable done').read (o := .time) ((hrule.stable done').rely h' hr₃) trivial) hr'
    have hseen₃ := hseen.later (hlater.mappings hr₃)
    have hlate := hlater.mappings hr'
    exact hresolve _ _ _ (htime done h₂) (htime _) (hseen₃.later hlate)

theorem safe_addMapping (hreads : ReadsFree C) (hlater : RelyLater C s)
    (hrule : MappingRule C s irs I) {impi : String} (himpi : irs.impis[impi]? = some .added)
    (status : Status) {done : List String} (h : I done hs w) :
    Safe serve C (fun _ hs' w' => I (impi :: done) hs' w') (addMapping irs s impi status) hs w := by
  refine safe_timeNow hreads (hrule.stable done) h fun now hs₁ w₁ h₁ => ?_
  have hloop : Safe serve C (fun _ hs' w' => I (impi :: done) hs' w')
      (Prog.loop (addMappingPass irs s impi) (fun st => st.status.isContention)
        { status := status, mapping := .new impi irs.defaultImpu (now + irs.ttl) }) hs₁ w₁ := by
    refine Safe.loop (fun st hs w => I done hs w ∧ st.mapping.impi = impi ∧
      AddsTo irs.defaultImpu (w.stores s).mappings st.mapping) ?_ ⟨h₁, rfl, addsTo_new _ _ _ _⟩
    rintro st hs w ⟨h, hst, hadds⟩
    refine (safe_addMappingPass hreads hlater hrule himpi hst hadds h).weaken ?_
    rintro st' hs' w' (⟨hcont, hrest⟩ | ⟨hne, h'⟩)
    · rw [hcont]
      exact hrest
    · rw [show st'.status.isContention = false from decide_eq_false hne]
      exact h'
  exact hloop.bind fun st hs' w' hq => .ret hq

/-- A loop over the IMPIs in one state, each of which is `done` after its pass. -/
theorem safe_forEach_impis (hrule : MappingRule C s irs I) {impis : List String}
    {body : String → Status → CacheProg Status}
    (hbody : ∀ impi ∈ impis, ∀ status done hs w, I done hs w →
      Safe serve C (fun _ hs' w' => I (impi :: done) hs' w') (body impi status) hs w)
    (status : Status) {done : List String} (h : I done hs w) :
    Safe serve C (fun _ hs' w' => ∃ done', I done' hs' w' ∧ ∀ impi ∈ impis, impi ∈ done')
      (Prog.forEach impis body status) hs w := by
  refine (Safe.forEach (fun todo _ hs w => (∀ impi ∈ todo, impi ∈ impis) ∧
    ∃ done', I done' hs w ∧ ∀ impi ∈ impis, impi ∈ todo ∨ impi ∈ done') ?_ ?_
    ⟨fun _ h => h, done, h, fun _ h => .inl h⟩).weaken ?_
  · rintro todo st hs w w' ⟨htodo, done', h, hrest⟩ hr
    exact ⟨htodo, done', (hrule.stable done').rely h hr, hrest⟩
  · rintro impi todo st hs w ⟨htodo, done', h, hrest⟩
    refine (hbody impi (htodo impi List.mem_cons_self) st done' hs w h).weaken ?_
    intro _ hs' w' h'
    refine ⟨fun x hx => htodo x (List.mem_cons_of_mem _ hx), _, h', fun x hx => ?_⟩
    rcases hrest x hx with hmem | hmem
    · rcases List.mem_cons.mp hmem with rfl | hmem
      · exact .inr List.mem_cons_self
      · exact .inl hmem
    · exact .inr (List.mem_cons_of_mem _ hmem)
  · rintro _ hs' w' ⟨-, done', h', hrest⟩
    exact ⟨done', h', fun impi himpi => (hrest impi himpi).resolve_left (by simp)⟩

/-- `update_irs_impi_mappings` among other clients. At the end every added IMPI is done. -/
theorem safe_updateIrsImpiMappings (hreads : ReadsFree C) (hlater : RelyLater C s)
    (hrule : MappingRule C s irs I) (h : I [] hs w) :
    Safe serve C (fun _ hs' w' => ∃ done, I done hs' w' ∧
      ∀ impi, irs.impis[impi]? = some .added → impi ∈ done) (updateIrsImpiMappings irs s) hs w := by
  rw [updateIrsImpiMappings_eq]
  -- `done` stays empty while mappings are removed, and then grows with each mapping written.
  have hremoves : Safe serve C (fun _ hs' w' => I [] hs' w')
      (Prog.forEach (irs.impisIn .deleted) (removeMapping irs s) .ok) hs w := by
    refine (Safe.forEach (fun todo _ hs w => (∀ impi ∈ todo, impi ∈ irs.impisIn .deleted) ∧
      I [] hs w) ?_ ?_ ⟨fun _ h => h, h⟩).weaken fun _ _ _ h => h.2
    · rintro todo st hs w w' ⟨htodo, h⟩ hr
      exact ⟨htodo, (hrule.stable []).rely h hr⟩
    · rintro impi todo st hs w ⟨htodo, h⟩
      have himpi := Data.mem_elementsInState.mp (htodo impi List.mem_cons_self)
      exact (safe_removeMapping hreads hlater hrule himpi st h).weaken
        fun _ hs' w' h' => ⟨fun x hx => htodo x (List.mem_cons_of_mem _ hx), h'⟩
  refine hremoves.bind fun status hs₁ w₁ hq => ?_
  have hrefresh : Safe serve C (fun _ hs' w' => ∃ done, I done hs' w')
      (if irs.refreshed then
        Prog.forEach (irs.impisIn .unchanged) (refreshMapping irs s) status
      else pure status) hs₁ w₁ := by
    split
    · rename_i href
      refine (safe_forEach_impis hrule ?_ status (hq w₁ (C.rely_refl w₁))).weaken
        fun _ _ _ ⟨done, h', _⟩ => ⟨done, h'⟩
      intro impi himpi st done hs w h
      exact safe_refreshMapping hreads hlater hrule href (Data.mem_elementsInState.mp himpi) st h
    · exact .ret fun w' hr => ⟨[], hq w' hr⟩
  refine hrefresh.bind fun status hs₂ w₂ hq₂ => ?_
  obtain ⟨done, h₂⟩ := hq₂ w₂ (C.rely_refl w₂)
  refine (safe_forEach_impis hrule ?_ status h₂).weaken fun _ _ _ ⟨done', h', hrest⟩ =>
    ⟨done', h', fun impi himpi => hrest impi (Data.mem_elementsInState.mpr himpi)⟩
  intro impi himpi st done hs w h
  exact safe_addMapping hreads hlater hrule (Data.mem_elementsInState.mp himpi) st h

end Mappings

/-! ### The put -/

/-- `put_irs_action` from its three operations. `R` is what the first one leaves when it
succeeds, and `T` what the whole put leaves. -/
theorem safe_putIrsAction {s : StoreId} {irs : Irs} {R T E : Irs → History → World → Prop}
    (hfirst : Safe serve C (fun r hs' w' => r.1 = .ok ∧ R r.2 hs' w' ∨ r.1 ≠ .ok ∧ E r.2 hs' w')
      (putIrsImpu irs s) hs w)
    (hrest : ∀ irs' hs' w', R irs' hs' w' → Safe serve C (fun _ hs'' w'' => T irs' hs'' w'')
      (updateIrsAssociatedImpus irs' s >>= fun _ => updateIrsImpiMappings irs' s) hs' w') :
    Safe serve C (fun r hs' w' => r.1 = .ok ∧ T r.2 hs' w' ∨ r.1 ≠ .ok ∧ E r.2 hs' w')
      (putIrsAction irs s) hs w := by
  refine hfirst.bind fun r hs₁ w₁ hq => ?_
  show Safe serve C _ (if r.1 = .ok then _ else _) hs₁ w₁
  split
  · rename_i hok
    have hR : R r.2 hs₁ w₁ :=
      ((hq w₁ (C.rely_refl w₁)).resolve_right fun h => h.1 hok).2
    have hlast : Safe serve C
        (fun r hs' w' => r.1 = .ok ∧ T r.2 hs' w' ∨ r.1 ≠ .ok ∧ E r.2 hs' w')
        ((updateIrsAssociatedImpus r.2 s >>= fun _ => updateIrsImpiMappings r.2 s) >>=
          fun _ => .ret r) hs₁ w₁ :=
      (hrest r.2 hs₁ w₁ hR).bind fun _ hs' w' hT => .ret fun w'' hr => .inl ⟨hok, hT w'' hr⟩
    rwa [Prog.bind_bind] at hlast
  · rename_i hne
    refine .ret fun w' hr => .inr ?_
    exact (hq w' hr).resolve_left fun h => hne h.1

/-- The two later operations of a put of an IRS that does not track `D` as an associated
IMPU: they make no call on the record at `D`, so they keep what such calls keep. -/
theorem safe_laterOperations {s : StoreId} {irs : Irs} {D : String} (hreads : ReadsFree C)
    (hlater : RelyLater C s) (huntracked : irs.associatedImpus[D]? = none)
    (hrely : ∀ {hs w w'}, A hs w → C.rely w w' → A hs w')
    (hkey : ∀ {o : Call} {hs w}, o.impuKey ≠ some (s, D) → A hs w →
      C.guar hs w o ∧ A (hs.add o w) (serve o w).2) (h : A hs w) :
    Safe serve C (fun _ hs' w' => A hs' w')
      (updateIrsAssociatedImpus irs s >>= fun _ => updateIrsImpiMappings irs s) hs w := by
  have hstable : Stable C A := by
    refine ⟨hrely, fun hA ho => (hkey ?_ hA).2⟩
    rw [ho.keys.1]
    nofun
  -- No element of the IRS is `D`, so each write has another key than the record.
  have hassociated : AssociatedRule C s irs fun _ => A := by
    refine ⟨fun _ => hstable, ?_, ?_⟩
    · rintro done hs w a o rfl _ hstate hA _
      refine hkey (fun heq => ?_) hA
      obtain rfl : a.impu = D := by simpa [Call.impuKey, Impu.impu] using heq
      rw [huntracked] at hstate
      simp at hstate
    · rintro hs w a o rfl _ hstate _ hA _
      refine hkey (fun heq => ?_) hA
      obtain rfl : a.impu = D := by simpa [Call.impuKey, Impu.impu] using heq
      rw [huntracked] at hstate
      cases hstate
  have hmapping : MappingRule C s irs fun _ => A := by
    refine ⟨fun _ => hstable, ?_, ?_, ?_, ?_, ?_⟩
    · rintro done hs w m o rfl _ _ hA _
      have hstep := hkey (o := .setImpiMapping s m) nofun hA
      refine ⟨hstep.1, fun _ => hstep.2, fun hv => ?_⟩
      rcases serve_setImpiMapping_cases w s m with ⟨hv', -, -⟩ | ⟨-, -, hworld⟩
      · exact absurd hv' hv
      · rw [hworld] at hstep
        exact hstep.2
    · rintro done hs w impi m o rfl _ _ _ hA
      exact hstable.read hA trivial
    · rintro done hs w impi o rfl _ _ hA
      exact hstable.read hA trivial
    · rintro hs w m o rfl _ _ hA _
      exact hkey (o := .setImpiMapping s m) nofun hA
    · rintro hs w m o rfl _ _ _ hA _
      exact hkey (o := .deleteImpiMapping s m) nofun hA
  refine (safe_updateIrsAssociatedImpus hreads hlater hassociated h).bind fun _ hs₁ w₁ hq => ?_
  obtain ⟨-, h₁⟩ := hq w₁ (C.rely_refl w₁)
  exact (safe_updateIrsImpiMappings hreads hlater hmapping h₁).weaken fun _ _ _ ⟨_, hA, _⟩ => hA

/-- A whole client: its lookup, and then the put of the IRS it has found or of a new one. -/
theorem safe_client {px : XmlParser} {D : String} {client : Client}
    {T : Option (Status × Irs) → History → World → Prop} (hremote : cache.remoteStores = [])
    (hreads : ReadsFree C) (hrule : ReadRule C cache.localStore A P)
    (hfound : ∀ {irs hs w setters}, client.onFound = some setters → irs.defaultImpu = D →
      BuiltFrom P irs hs w → A hs w → Safe serve C (fun r hs' w' => T (some r) hs' w')
        (putIrsAction (irs.applyAll px setters) cache.localStore) hs w)
    (hnew : ∀ {hs w new}, client.onNotFound = some new → A hs w →
      Safe serve C (fun r hs' w' => T (some r) hs' w')
        (putIrsAction (new.1.applyAll px new.2) cache.localStore) hs w)
    (hnone : ∀ {hs w}, A hs w → T none hs w) (h : A hs w) :
    Safe serve C T (client.run px cache D) hs w := by
  unfold Client.run
  refine (safe_lookup hremote hreads hrule client.lookup h).bind fun found hs₁ w₁ hq => ?_
  obtain ⟨h₁, hbuilt⟩ := hq w₁ (C.rely_refl w₁)
  cases htarget : client.target px D found with
  | none => exact .ret fun w' hr => hnone (hrule.stable.rely h₁ hr)
  | some irs =>
    have hput : Safe serve C (fun r hs' w' => T (some r) hs' w')
        (putIrsAction irs cache.localStore) hs₁ w₁ := by
      -- The IRS that is put was found by the lookup, or is new.
      unfold Client.target at htarget
      split at htarget
      · obtain ⟨irs₀, hfind, hset⟩ := Option.bind_eq_some_iff.mp htarget
        obtain ⟨setters, hsetters, rfl⟩ := Option.map_eq_some_iff.mp hset
        have hD : irs₀.defaultImpu = D := by simpa using List.find?_some hfind
        exact hfound hsetters hD (hbuilt irs₀ (List.mem_of_find?_eq_some hfind)) h₁
      · obtain ⟨new, hnew', rfl⟩ := Option.map_eq_some_iff.mp htarget
        exact hnew hnew' h₁
      · cases htarget
    exact hput.bind fun r hs₂ w₂ hT => .ret hT

end Rules

/-- Clients that update the IRS for `D`, before their first store call. -/
def updatePool {ι : Type} (px : XmlParser) (cache : MemcachedCache) (D : String) (w : World)
    (lookups : ι → Lookup) (setters : ι → List Setter) :
    Pool ι Call Call.Resp World (Option (Status × Irs)) :=
  .start w fun i => (updateClient (lookups i) (setters i)).run px cache D

end Homestead

import Homestead.Proofs.Concurrent

/-!
# `Homestead.Proofs.Removals`: the removals of one IRS and the entries of another

Two clients on one store. The first runs `put_irs_action` or `delete_irs_action` for one
default IMPU, the second `put_irs_action` for another one, interleaved call by call.
`Survives` says that what the second client has stored is still there: its default IMPU in
the mappings, and its `AssociatedImpu` records unless a later write replaced them.

A removal reads an entry, decides, and then writes back by compare-and-set or deletes. A
delete takes no CAS value, so it also removes what was written after the read.
`DeletesWhatItRead` is the condition at a delete that this has not happened.

* `survives_step`: a call that keeps the entries of the second client, in the sense of
  `KeepsEntries` or `KeepsOwn`, keeps `Survives`.
* `safe_first` and `safe_second`: the two clients make only such calls.
* `removals_keep_entries` is the result for every run that meets the condition.
* `entry_lost_by_stale_delete` is a run for each of the two deletes that does not.
-/

set_option autoImplicit false

namespace Homestead

open CacheProg

/-! ### The clients -/

/-- The two clients. -/
inductive Party
  | first
  | second
  deriving DecidableEq, Repr

/-- The actions of the first client. -/
inductive IrsAction
  | put
  | delete
  deriving DecidableEq, Repr

def IrsAction.run (action : IrsAction) (irs : Irs) (s : StoreId) : CacheProg (Status × Irs) :=
  match action with
  | .put => putIrsAction irs s
  | .delete => deleteIrsAction irs s

/-- The two clients before their first store call. -/
def partyPool (s : StoreId) (w : World) (action : IrsAction) (irs₁ irs₂ : Irs) :
    Pool Party Call Call.Resp World (Status × Irs) :=
  .start w fun
    | .first => action.run irs₁ s
    | .second => putIrsAction irs₂ s

/-! ### What survives -/

/-- The IMPI into whose mapping a call has successfully stored `D`. -/
def mappingStored (s : StoreId) (D : String) : Event Call Call.Resp → Option String
  | ⟨.setImpiMapping s' m, r⟩ =>
    if s' = s ∧ Status.isOk r ∧ D ∈ m.defaultImpus then some m.impi else none
  | _ => none

/-- The key under which a call has written an `AssociatedImpu` that points at `D`. -/
def associatedStored (s : StoreId) (D : String) : Event Call Call.Resp → Option String
  | ⟨.setImpuWithoutCas s' (.associated a), _⟩ =>
    if s' = s ∧ a.defaultImpu = D then some a.impu else none
  | _ => none

/-- The key under which a call has written a record, of either kind. -/
def recordWritten (s : StoreId) : Event Call Call.Resp → Option String
  | ⟨.setImpu s' impu, r⟩ => if s' = s ∧ Status.isOk r then some impu.impu else none
  | ⟨.setImpuWithoutCas s' impu, _⟩ => if s' = s then some impu.impu else none
  | ⟨.addImpu s' impu, r⟩ => if s' = s ∧ Status.isOk r then some impu.impu else none
  | _ => none

/-- What the second client has stored for `D` is still there. A mapping has `D`. An
`AssociatedImpu` points at `D`, unless some client wrote the record again. -/
structure Survives (s : StoreId) (D : String) (w : World)
    (tr : List (Party × Event Call Call.Resp)) : Prop where
  mappings : ∀ e impi, (.second, e) ∈ tr → mappingStored s D e = some impi →
    (w.stores s).Maps impi D
  associated : ∀ tr₁ e tr₂ impu, tr = tr₁ ++ (.second, e) :: tr₂ →
    associatedStored s D e = some impu → (∀ x ∈ tr₂, recordWritten s x.2 ≠ some impu) →
    (w.stores s).PointsAt impu D

/-- The condition at a delete. The removal of an associated IMPU and of a mapping deletes the
version that it has read. The delete of a default IMPU finds no `AssociatedImpu` of another
one under its key. -/
def DeletesWhatItRead (w : World) : Call → Prop
  | .deleteImpu s (.associated a) => (w.stores s).impus.version a.impu = a.cas
  | .deleteImpu s (.default d) =>
    match (w.stores s).impus.value? d.impu with
    | some (.decoded (.associated D _)) => D = d.impu
    | _ => True
  | .deleteImpiMapping s m => (w.stores s).mappings.version m.impi = m.cas
  | _ => True

instance (w : World) : (o : Call) → Decidable (DeletesWhatItRead w o)
  | .deleteImpu _ (.associated _) => inferInstanceAs (Decidable (_ = _))
  | .deleteImpu s (.default d) =>
    match h : (w.stores s).impus.value? d.impu with
    | some (.decoded (.associated D _)) =>
      decidable_of_iff (D = d.impu) (by simp [DeletesWhatItRead, h])
    | some (.decoded (.default _)) => .isTrue (by simp [DeletesWhatItRead, h])
    | some .corrupt => .isTrue (by simp [DeletesWhatItRead, h])
    | none => .isTrue (by simp [DeletesWhatItRead, h])
  | .deleteImpiMapping _ _ => inferInstanceAs (Decidable (_ = _))
  | .getImpu _ _ => .isTrue trivial
  | .setImpu _ _ => .isTrue trivial
  | .setImpuWithoutCas _ _ => .isTrue trivial
  | .addImpu _ _ => .isTrue trivial
  | .getImpiMapping _ _ => .isTrue trivial
  | .setImpiMapping _ _ => .isTrue trivial
  | .time => .isTrue trivial
  | .progressCb => .isTrue trivial

/-- A call that keeps the entries for `D`. -/
def KeepsEntries (s : StoreId) (D : String) (w : World) : Call → Prop
  | .deleteImpu s' impu => s' = s → ¬ (w.stores s).PointsAt impu.impu D
  | .deleteImpiMapping s' m => s' = s → ¬ (w.stores s).Maps m.impi D
  | .setImpiMapping s' m => s' = s → (w.stores s).mappings.version m.impi = m.cas →
    (w.stores s).Maps m.impi D → D ∈ m.defaultImpus
  | _ => True

/-- None of the calls has stored anything, by the given measure. -/
def NoneStored (stored : Event Call Call.Resp → Option String) (hs : History) : Prop :=
  ∀ e ∈ hs, stored e = none

/-- A call of the client that stores `D` itself. It removes only what was there before it
stored anything of the same kind. -/
def KeepsOwn (s : StoreId) (D : String) (hs : History) : Call → Prop
  | .deleteImpu _ _ => NoneStored (associatedStored s D) hs
  | .deleteImpiMapping _ _ => NoneStored (mappingStored s D) hs
  | .setImpiMapping _ m => D ∈ m.defaultImpus ∨ NoneStored (mappingStored s D) hs
  | _ => True

variable {s : StoreId} {D : String} {w : World} {hs : History}

theorem NoneStored.add {stored : Event Call Call.Resp → Option String} {o : Call}
    (h : NoneStored stored hs) (ho : stored ⟨o, (serve o w).1⟩ = none) :
    NoneStored stored (hs.add o w) := by
  intro e he
  rcases List.mem_append.mp he with he | he
  · exact h e he
  · obtain rfl := List.mem_singleton.mp he
    exact ho

/-! ### One call -/

theorem maps_congr {st st' : ImpuStore} {impi : String}
    (h : st'.mappings.cells impi = st.mappings.cells impi) (hm : st.Maps impi D) :
    st'.Maps impi D := by
  unfold ImpuStore.Maps CasTable.value?
  rw [h]
  exact hm

theorem pointsAt_congr {st st' : ImpuStore} {impu : String}
    (h : st'.impus.cells impu = st.impus.cells impu) (hp : st.PointsAt impu D) :
    st'.PointsAt impu D := by
  unfold ImpuStore.PointsAt CasTable.value?
  rw [h]
  exact hp

/-- A write of a mapping with `D` leaves `D` in the mapping. -/
theorem maps_setMappings_put {m : ImpiMapping} (hD : D ∈ m.defaultImpus) :
    ((w.setMappings s ((w.stores s).mappings.put m.impi (.decoded m.toData))).stores s).Maps
      m.impi D := by
  rw [World.setMappings_stores_self]
  exact ⟨m.toData, CasTable.put_value?_self _ _ _, hD⟩

/-- One call of either client and one mapping that has `D`. -/
theorem maps_step {o : Call} {impi : String} (hm : (w.stores s).Maps impi D)
    (hdelete : ∀ m, o = .deleteImpiMapping s m → m.impi ≠ impi)
    (hset : ∀ m, o = .setImpiMapping s m → m.impi = impi →
      (w.stores s).mappings.version impi = m.cas → D ∈ m.defaultImpus) :
    ((serve o w).2.stores s).Maps impi D := by
  by_cases hkey : o.mappingKey = some (s, impi)
  · cases o with
    | setImpiMapping s' m =>
      obtain ⟨rfl, rfl⟩ : s' = s ∧ m.impi = impi := by simpa [Call.mappingKey] using hkey
      rcases serve_setImpiMapping_cases w s' m with ⟨hv, -, hworld⟩ | ⟨-, -, hworld⟩
      · rw [hworld]
        exact maps_setMappings_put (hset m rfl rfl hv)
      · rw [hworld]
        exact hm
    | deleteImpiMapping s' m =>
      obtain ⟨rfl, rfl⟩ : s' = s ∧ m.impi = impi := by simpa [Call.mappingKey] using hkey
      exact absurd rfl (hdelete m rfl)
    | _ => cases hkey
  · exact maps_congr (serve_mappings_cells w hkey) hm

/-- One call of either client and one record that points at `D`. A call that writes the
record is an explicit rewrite. -/
theorem pointsAt_step {o : Call} {impu : String} (hp : (w.stores s).PointsAt impu D)
    (hdelete : ∀ x, o = .deleteImpu s x → x.impu ≠ impu)
    (hwrite : recordWritten s ⟨o, (serve o w).1⟩ ≠ some impu) :
    ((serve o w).2.stores s).PointsAt impu D := by
  by_cases hkey : o.impuKey = some (s, impu)
  · cases o with
    | setImpu s' x =>
      obtain ⟨rfl, rfl⟩ : s' = s ∧ x.impu = impu := by simpa [Call.impuKey] using hkey
      rcases serve_setImpu_cases w s' x with ⟨-, hok, -⟩ | ⟨-, -, hworld⟩
      · exact absurd (if_pos ⟨rfl, by rw [hok]; rfl⟩) hwrite
      · rw [hworld]
        exact hp
    | setImpuWithoutCas s' x =>
      obtain ⟨rfl, rfl⟩ : s' = s ∧ x.impu = impu := by simpa [Call.impuKey] using hkey
      exact absurd (if_pos rfl) hwrite
    | addImpu s' x =>
      obtain ⟨rfl, rfl⟩ : s' = s ∧ x.impu = impu := by simpa [Call.impuKey] using hkey
      rcases serve_addImpu_cases w s' x with ⟨-, hok, -⟩ | ⟨-, -, hworld⟩
      · exact absurd (if_pos ⟨rfl, by rw [hok]; rfl⟩) hwrite
      · rw [hworld]
        exact hp
    | deleteImpu s' x =>
      obtain ⟨rfl, rfl⟩ : s' = s ∧ x.impu = impu := by simpa [Call.impuKey] using hkey
      exact absurd rfl (hdelete x rfl)
    | _ => cases hkey
  · exact pointsAt_congr (serve_impus_cells w hkey) hp

/-- A call that stores `D` in a mapping leaves it there. -/
theorem maps_of_mappingStored {o : Call} {impi : String}
    (h : mappingStored s D ⟨o, (serve o w).1⟩ = some impi) :
    ((serve o w).2.stores s).Maps impi D := by
  cases o with
  | setImpiMapping s' m =>
    obtain ⟨⟨rfl, hok, hD⟩, himpi⟩ := Option.ite_none_right_eq_some.mp h
    obtain rfl : m.impi = impi := Option.some.inj himpi
    rcases serve_setImpiMapping_cases w s' m with ⟨-, -, hworld⟩ | ⟨-, hcont, -⟩
    · rw [hworld]
      exact maps_setMappings_put hD
    · rw [hcont] at hok
      cases hok
  | _ => cases h

/-- A call that writes an `AssociatedImpu` of `D` leaves it there. -/
theorem pointsAt_of_associatedStored {o : Call} {impu : String}
    (h : associatedStored s D ⟨o, (serve o w).1⟩ = some impu) :
    ((serve o w).2.stores s).PointsAt impu D := by
  cases o with
  | setImpuWithoutCas s' x =>
    cases x with
    | default d => cases h
    | associated a =>
      obtain ⟨⟨rfl, rfl⟩, himpu⟩ := Option.ite_none_right_eq_some.mp h
      obtain rfl : a.impu = impu := Option.some.inj himpu
      show ((w.setImpus s' _).stores s').PointsAt a.impu a.defaultImpu
      rw [World.setImpus_stores_self]
      exact ⟨a.expiry, CasTable.put_value?_self _ _ _⟩
  | _ => cases h

/-- One call of either client keeps what the second client has stored. -/
theorem survives_step {tr : List (Party × Event Call Call.Resp)} {i : Party} {o : Call}
    (h : Survives s D w tr) (hfirst : i = .first → KeepsEntries s D w o)
    (hsecond : i = .second → KeepsOwn s D (Pool.histOf .second tr) o) :
    Survives s D (serve o w).2 (tr ++ [(i, ⟨o, (serve o w).1⟩)]) where
  mappings := by
    intro e impi he hstored
    rcases List.mem_append.mp he with he | he
    · -- A mapping stored before: the removals of either client keep it.
      have hm := h.mappings e impi he hstored
      have hsome : ¬ NoneStored (mappingStored s D) (Pool.histOf .second tr) := by
        intro hnone
        have := hnone e (Pool.mem_histOf.mpr he)
        rw [hstored] at this
        cases this
      refine maps_step hm ?_ ?_
      · rintro m rfl rfl
        cases i with
        | first => exact hfirst rfl rfl hm
        | second => exact hsome (hsecond rfl)
      · rintro m rfl rfl hv
        cases i with
        | first => exact hfirst rfl rfl hv hm
        | second => exact (hsecond rfl).resolve_right hsome
    · obtain ⟨rfl, rfl⟩ := Prod.mk.inj (List.mem_singleton.mp he)
      exact maps_of_mappingStored hstored
  associated := by
    intro tr₁ e tr₂ impu htr hstored hlater
    rcases List.eq_nil_or_concat tr₂ with rfl | ⟨tr₂', x, rfl⟩
    · -- The record was written by this very call.
      obtain ⟨-, hlast⟩ := List.append_inj' htr rfl
      obtain ⟨rfl, rfl⟩ := Prod.mk.inj (List.head_eq_of_cons_eq hlast)
      exact pointsAt_of_associatedStored hstored
    · rw [List.concat_eq_append, ← List.cons_append, ← List.append_assoc] at htr
      obtain ⟨rfl, hlast⟩ := List.append_inj' htr rfl
      obtain rfl := List.head_eq_of_cons_eq hlast
      have hp := h.associated tr₁ e tr₂' impu rfl hstored fun x hx => hlater x (by simp [hx])
      refine pointsAt_step hp ?_ (hlater (i, ⟨o, (serve o w).1⟩) (by simp))
      rintro x rfl rfl
      cases i with
      | first => exact hfirst rfl rfl hp
      | second =>
        -- The second client deletes associated IMPUs only while it has stored none.
        have hnone := hsecond rfl e (Pool.mem_histOf.mpr (by simp))
        rw [hstored] at hnone
        cases hnone

/-! ### The record of the default IMPU -/

/-- A write of a default IMPU record. -/
def Call.StoresDefault : Call → Prop
  | .setImpu _ (.default _) => True
  | .setImpuWithoutCas _ (.default _) => True
  | .addImpu _ (.default _) => True
  | _ => False

section Default

variable {C : Contract Call Call.Resp World} {irs : Irs}

/-- The first operation of a put, when the contract allows every write of a default IMPU. It
keeps the default IMPU of the IRS. -/
theorem safe_putIrsImpu_free {A : History → Prop} (hreads : ReadsFree C)
    (hstores : ∀ hs w o, o.StoresDefault → C.guar hs w o)
    (hA : ∀ {hs w} {o : Call}, o.IsRead ∨ o.StoresDefault → A hs → A (hs.add o w)) (h : A hs) :
    Safe serve C (fun r hs' _ => r.1 = .ok ∧ (r.2.defaultImpu = irs.defaultImpu ∧ A hs') ∨
      r.1 ≠ .ok ∧ True) (putIrsImpu irs s) hs w := by
  unfold putIrsImpu
  split
  · -- The merge with a stored record keeps the default IMPU.
    let K : Irs → History → World → Prop := fun irs' hs _ =>
      irs'.defaultImpu = irs.defaultImpu ∧ A hs
    have hread : ∀ {irs' hs w} {o : Call}, o.IsRead → K irs' hs w → K irs' (hs.add o w) w :=
      fun ho hK => ⟨hK.1, hA (.inl ho) hK.2⟩
    -- The calls of the update are reads and writes of the default record, which `A` survives.
    have hrule : UpdateRule C s K (fun _ _ _ _ => True) K True := by
      refine ⟨fun _ => ⟨fun h _ => h, fun h => hread (o := .time) trivial h⟩,
        fun _ _ => ⟨fun h _ => h, fun h => h⟩, fun h _ => h, ?_, ?_, ?_, fun _ _ _ => trivial, ?_⟩
      · rintro irs' hs w o rfl hK _ _ _
        exact ⟨hread trivial hK, trivial⟩
      · rintro irs' hs w d o rfl hK _ _ _ now
        exact ⟨hread (o := .getImpu s irs'.defaultImpu) trivial hK, trivial⟩
      · rintro irs' hs w a o rfl hK _ _ _ _
        exact ⟨hread trivial hK, trivial⟩
      · rintro irs' hs w c store now o rfl hK _ _
        have hK' : K irs' (hs.add (.setImpu s (.default (irs'.createImpu c store now))) w) w :=
          ⟨hK.1, hA (.inr trivial) hK.2⟩
        exact ⟨hstores _ _ _ trivial, fun _ => hK', fun _ => hK'⟩
    refine (safe_updateIrsImpu hreads hrule ⟨rfl, h⟩ fun _ => trivial).weaken ?_
    rintro r hs' w' (hok | ⟨herr, -⟩)
    · exact .inl hok
    · exact .inr ⟨by rw [herr]; nofun, trivial⟩
  · have hstable : Stable C fun hs _ => A hs := ⟨fun h _ => h, fun h ho => hA (.inl ho) h⟩
    have hcreate : Safe serve C (fun r hs' _ => r = .ok ∧ A hs') (createIrsImpu irs s) hs w := by
      refine safe_createIrsImpu hreads hstable (fun h _ => h) ?_ ?_ h
      · rintro hs w now o _ rfl h _
        exact ⟨hstores _ _ _ trivial, hA (.inr trivial) h⟩
      · rintro hs w now o _ rfl h _
        exact ⟨hstores _ _ _ trivial, hA (.inr trivial) h⟩
    refine hcreate.bind fun r hs₁ w₁ hq => .ret fun w' hr => .inl ?_
    obtain ⟨rfl, h₁⟩ := hq w' hr
    exact ⟨rfl, rfl, h₁⟩

/-- What a pass of `delete_irs_impu` leaves: the record at the default IMPU is deleted, or
there was none. -/
theorem safe_rereadPass_delete (hreads : ReadsFree C)
    (hdelete : ∀ hs w d, d.impu = irs.defaultImpu → C.assume hs w (.deleteImpu s (.default d)) →
      C.guar hs w (.deleteImpu s (.default d))) :
    Safe serve C (fun st _ _ => st.irs.defaultImpu = irs.defaultImpu ∧ st.impu = none)
      (rereadPass .deleteImpu s irs) hs w := by
  have hlast : ∀ (irs' : Irs) (d : DefaultImpu) hs w, irs'.defaultImpu = irs.defaultImpu →
      d.impu = irs.defaultImpu → Safe serve C
        (fun (st : ImpuActionState) _ _ => st.irs.defaultImpu = irs.defaultImpu ∧ st.impu = none)
        (IrsImpuAction.deleteImpu.apply s d >>= fun status =>
          pure { status := status, irs := irs', impu := none }) hs w := by
    intro irs' d hs w hirs' hd
    refine .call fun w' _ ha => ⟨hdelete hs w' d hd ha, .ret fun _ _ => ⟨hirs', rfl⟩⟩
  unfold rereadPass
  refine .call fun w₁ _ _ => ⟨hreads _ _ _ trivial, ?_⟩
  generalize (serve (.getImpu s irs.defaultImpu) w₁).1 = mapped
  obtain ⟨status, _ | d | a⟩ := mapped
  · exact .ret fun _ _ => ⟨rfl, rfl⟩
  · -- The merge and the record that is deleted keep the default IMPU.
    show Safe serve C _ (irs.mergeFromStore d >>= _) _ _
    unfold Irs.mergeFromStore
    split
    · refine .call fun w₂ _ _ => ⟨hreads _ _ _ trivial, hlast _ _ _ _ rfl rfl⟩
    · refine .call fun w₂ _ _ => ⟨hreads _ _ _ trivial, ?_⟩
      refine .call fun w₃ _ _ => ⟨hreads _ _ _ trivial, hlast _ _ _ _ rfl rfl⟩
  · show Safe serve C _ (if irs.refreshed then _ else _) _ _
    split
    · refine .call fun w₂ _ _ => ⟨hreads _ _ _ trivial, hlast _ _ _ _ rfl rfl⟩
    · exact .ret fun _ _ => ⟨rfl, rfl⟩

/-- `delete_irs_impu` among other clients. -/
theorem safe_deleteIrsImpu (hreads : ReadsFree C)
    (hdelete : ∀ hs w d, d.impu = irs.defaultImpu → C.assume hs w (.deleteImpu s (.default d)) →
      C.guar hs w (.deleteImpu s (.default d))) :
    Safe serve C (fun r _ _ => r.2.defaultImpu = irs.defaultImpu) (deleteIrsImpu irs s) hs w := by
  unfold deleteIrsImpu performIrsImpuAction
  -- The loop only ever deletes a record of the default IMPU.
  let Inv : ImpuActionState → History → World → Prop := fun st _ _ =>
    st.irs.defaultImpu = irs.defaultImpu ∧ ∀ d, st.impu = some d → d.impu = irs.defaultImpu
  have hloop : ∀ st hs w, Inv st hs w →
      Safe serve C (fun st' _ _ => st'.irs.defaultImpu = irs.defaultImpu)
        (Prog.loop (impuActionPass .deleteImpu s) (fun s => s.status.isContention) st) hs w := by
    intro st hs w hst
    refine Safe.loop Inv ?_ hst
    rintro st hs w ⟨hirs, hd⟩
    have hpass : Safe serve C
        (fun st' _ _ => st'.irs.defaultImpu = irs.defaultImpu ∧ st'.impu = none)
        (impuActionPass .deleteImpu s st) hs w := by
      unfold impuActionPass
      split
      · rename_i d himpu
        exact .call fun w' _ ha => ⟨hdelete hs w' d (hd d himpu) ha, .ret fun _ _ => ⟨hirs, rfl⟩⟩
      · rw [← hirs] at hdelete ⊢
        exact safe_rereadPass_delete hreads hdelete
    refine hpass.weaken fun st' _ _ hst' => ?_
    split
    · exact ⟨hst'.1, fun d hd' => absurd (hst'.2.symm.trans hd') nofun⟩
    · exact hst'.1
  have hstart : ∀ impu hs w, (∀ d, impu = some d → d.impu = irs.defaultImpu) →
      Safe serve C (fun r _ _ => r.2.defaultImpu = irs.defaultImpu)
        (Prog.loop (impuActionPass .deleteImpu s) (fun s => s.status.isContention)
          { status := .ok, irs := irs.markAsRefreshed, impu := impu } >>= fun st =>
            pure (st.status, st.irs)) hs w :=
    fun impu hs w himpu => (hloop _ hs w ⟨rfl, himpu⟩).bind fun st hs' w' hq => .ret hq
  show Safe serve C _ (irs.markAsRefreshed.getImpuForStore s >>= _) hs w
  unfold Irs.getImpuForStore
  split
  · refine .call fun w₁ _ _ => ⟨hreads _ _ _ trivial, hstart _ _ _ ?_⟩
    rintro d ⟨⟩
    rfl
  · exact hstart _ _ _ fun d hd => absurd hd (by simp)

end Default

/-! ### The two clients -/

/-- Between two calls of a client the tables of the store move forward. -/
def MovesOn (s : StoreId) (w w' : World) : Prop :=
  CasTable.Later (w.stores s).impus (w'.stores s).impus ∧
    CasTable.Later (w.stores s).mappings (w'.stores s).mappings

/-- The contract of the first client. -/
def removing (s : StoreId) (D : String) : Contract Call Call.Resp World where
  rely := MovesOn s
  assume _ := DeletesWhatItRead
  guar _ := KeepsEntries s D
  rely_refl _ := ⟨.refl _, .refl _⟩
  rely_trans h₁ h₂ := ⟨h₁.1.trans h₂.1, h₁.2.trans h₂.2⟩

/-- The contract of the second client. -/
def storing (s : StoreId) (D : String) : Contract Call Call.Resp World where
  rely := MovesOn s
  assume _ _ _ := True
  guar hs _ := KeepsOwn s D hs
  rely_refl _ := ⟨.refl _, .refl _⟩
  rely_trans h₁ h₂ := ⟨h₁.1.trans h₂.1, h₁.2.trans h₂.2⟩

theorem readsFree_removing : ReadsFree (removing s D) := by
  intro hs w o ho
  cases o with
  | deleteImpu s' impu => exact ho.elim
  | deleteImpiMapping s' m => exact ho.elim
  | setImpiMapping s' m => exact ho.elim
  | _ => trivial

theorem readsFree_storing : ReadsFree (storing s D) := by
  intro hs w o ho
  cases o with
  | deleteImpu s' impu => exact ho.elim
  | deleteImpiMapping s' m => exact ho.elim
  | setImpiMapping s' m => exact ho.elim
  | _ => trivial

theorem relyLater_removing : RelyLater (removing s D) s := ⟨fun h => h.1, fun h => h.2⟩

theorem relyLater_storing : RelyLater (storing s D) s := ⟨fun h => h.1, fun h => h.2⟩

/-- A mapping that adds another default IMPU keeps `D`. -/
theorem AddsTo.keeps {D' : String} {m : ImpiMapping} (h : AddsTo D' (w.stores s).mappings m)
    (hv : (w.stores s).mappings.version m.impi = m.cas) (hm : (w.stores s).Maps m.impi D) :
    D ∈ m.defaultImpus := by
  obtain ⟨data, hdata, hD⟩ := hm
  obtain ⟨c, hcell⟩ := CasTable.value?_eq_some.mp hdata
  obtain ⟨-, hzero | ⟨old, hseen, hold⟩⟩ := h
  · -- With the CAS value 0 there was no mapping to lose.
    rw [hzero, CasTable.version_eq_zero, hcell] at hv
    cases hv
  · have hold' := hseen.cells_eq hv
    rw [hcell] at hold'
    cases hold'
    exact hold D hD

/-- A mapping from which another default IMPU was removed keeps `D`. -/
theorem RemovesFrom.keeps {D' : String} (hne : D ≠ D') {m : ImpiMapping}
    (h : RemovesFrom D' (w.stores s).mappings m)
    (hv : (w.stores s).mappings.version m.impi = m.cas) (hm : (w.stores s).Maps m.impi D) :
    D ∈ m.defaultImpus := by
  obtain ⟨data, hdata, hD⟩ := hm
  obtain ⟨c, hcell⟩ := CasTable.value?_eq_some.mp hdata
  obtain ⟨old, hseen, hold⟩ := h
  have hold' := hseen.cells_eq hv
  rw [hcell] at hold'
  cases hold'
  rw [hold, List.mem_filter]
  exact ⟨hD, by simpa using hne⟩

section First

variable {irs : Irs}

/-- The associated IMPUs of the first client. A removal finds the record that it has read,
which points at its own default IMPU. -/
theorem associatedRule_removing (hne : irs.defaultImpu ≠ D) :
    AssociatedRule (removing s D) s irs fun _ _ _ => True where
  stable _ := ⟨fun h _ => h, fun h _ => h⟩
  write := by
    rintro done hs w a o rfl _ _ _ _
    exact ⟨trivial, trivial⟩
  remove := by
    rintro hs w a o rfl ha _ hseen _ hassume
    refine ⟨fun _ => ?_, trivial⟩
    rintro ⟨expiry, hvalue⟩
    rw [show (Impu.associated a).impu = a.impu from rfl,
      CasTable.value?_of_cells (hseen.cells_eq hassume), ha] at hvalue
    simp at hvalue
    exact hne hvalue.1

/-- The mappings of the first client. Compare-and-set keeps what was there, and a mapping is
deleted only when its own default IMPU was all that it had. -/
theorem mappingRule_removing (hne : irs.defaultImpu ≠ D) :
    MappingRule (removing s D) s irs fun _ _ _ => True where
  stable _ := ⟨fun h _ => h, fun h _ => h⟩
  store := by
    rintro done hs w m o rfl _ hadds _ _
    exact ⟨fun _ hv hm => hadds.keeps hv hm, fun _ => trivial, fun _ => trivial⟩
  present _ _ _ _ _ := trivial
  error _ _ _ _ := trivial
  remove := by
    rintro hs w m o rfl _ hremoves _ _
    exact ⟨fun _ hv hm => hremoves.keeps hne.symm hv hm, trivial⟩
  delete := by
    rintro hs w m o rfl _ hremoves hempty _ hassume
    refine ⟨fun _ hm => ?_, trivial⟩
    have hD := hremoves.keeps hne.symm hassume hm
    rw [hempty] at hD
    cases hD

/-- The first client, with either action. -/
theorem safe_first (action : IrsAction) (hne : irs.defaultImpu ≠ D) :
    Safe serve (removing s D) (fun _ _ _ => True) (action.run irs s) hs w := by
  have hassociated : ∀ {irs' : Irs} {hs w}, irs'.defaultImpu ≠ D →
      Safe serve (removing s D) (fun _ _ _ => True) (updateIrsAssociatedImpus irs' s) hs w :=
    fun hne' => (safe_updateIrsAssociatedImpus readsFree_removing relyLater_removing
      (associatedRule_removing hne') trivial).weaken fun _ _ _ _ => trivial
  have hmappings : ∀ {irs' : Irs} {hs w}, irs'.defaultImpu ≠ D →
      Safe serve (removing s D) (fun _ _ _ => True) (updateIrsImpiMappings irs' s) hs w :=
    fun hne' => (safe_updateIrsImpiMappings readsFree_removing relyLater_removing
      (mappingRule_removing hne') trivial).weaken fun _ _ _ _ => trivial
  cases action with
  | put =>
    have hstores : ∀ hs w (o : Call), o.StoresDefault → (removing s D).guar hs w o := by
      intro hs w o ho
      cases o with
      | deleteImpu s' impu => exact ho.elim
      | deleteImpiMapping s' m => exact ho.elim
      | setImpiMapping s' m => exact ho.elim
      | _ => trivial
    refine (safe_putIrsAction (R := fun irs' _ _ => irs'.defaultImpu = irs.defaultImpu ∧ True)
      (T := fun _ _ _ => True) (E := fun _ _ _ => True)
      (safe_putIrsImpu_free (A := fun _ => True) readsFree_removing hstores (fun _ h => h) trivial)
      ?_).weaken fun _ _ _ _ => trivial
    rintro irs' hs' w' ⟨hirs', -⟩
    rw [← hirs'] at hne
    exact (hassociated hne).bind fun _ _ _ _ => hmappings hne
  | delete =>
    have hdeletes : ∀ hs w (d : DefaultImpu), d.impu = irs.defaultImpu →
        (removing s D).assume hs w (.deleteImpu s (.default d)) →
        (removing s D).guar hs w (.deleteImpu s (.default d)) := by
      rintro hs w d hd hassume - ⟨expiry, hvalue⟩
      have hassume : DeletesWhatItRead w (.deleteImpu s (.default d)) := hassume
      rw [show (Impu.default d).impu = d.impu from rfl] at hvalue
      rw [DeletesWhatItRead, hvalue] at hassume
      exact hne (hd.symm.trans hassume.symm)
    show Safe serve (removing s D) _ (deleteIrsAction irs s) hs w
    unfold deleteIrsAction
    refine (safe_deleteIrsImpu readsFree_removing hdeletes).bind fun r hs₁ w₁ hq => ?_
    have hr : r.2.defaultImpu ≠ D := by
      rw [hq w₁ ((removing s D).rely_refl w₁)]
      exact hne
    -- Both later operations work on the IRS with all its identities marked as deleted.
    split
    · have hr₁ : r.2.deleteAssocImpus.defaultImpu ≠ D := hr
      refine (hassociated hr₁).bind fun status _ _ _ => ?_
      split
      · have hr' : r.2.deleteAssocImpus.deleteImpis.defaultImpu ≠ D := hr
        exact (hmappings hr').bind fun _ _ _ _ => .ret fun _ _ => trivial
      · exact .ret fun _ _ => trivial
    · exact .ret fun _ _ => trivial

end First

section Second

variable {irs : Irs}

/-- The associated IMPUs of the second client. Its removals come before its writes. -/
theorem associatedRule_storing : AssociatedRule (storing s D) s irs fun done hs _ =>
    (done = [] → NoneStored (associatedStored s D) hs) ∧ NoneStored (mappingStored s D) hs where
  stable done :=
    { rely := fun h _ => h
      read := fun {hs w o} h ho => by
        refine ⟨fun hdone => (h.1 hdone).add ?_, h.2.add ?_⟩
        · cases o with
          | setImpuWithoutCas s' impu => exact ho.elim
          | _ => rfl
        · cases o with
          | setImpiMapping s' m => exact ho.elim
          | _ => rfl }
  write := by
    rintro done hs w a o rfl _ _ h _
    exact ⟨trivial, nofun, h.2.add rfl⟩
  remove := by
    rintro hs w a o rfl _ _ _ h _
    exact ⟨h.1 rfl, fun _ => (h.1 rfl).add rfl, h.2.add rfl⟩

/-- The mappings of the second client. What it removes has not got `D` from it, and every
later write has `D`. -/
theorem mappingRule_storing (hD : irs.defaultImpu = D) :
    MappingRule (storing s D) s irs fun done hs _ =>
      done = [] → NoneStored (mappingStored s D) hs where
  stable done :=
    { rely := fun h _ => h
      read := fun {hs w o} h ho hdone => by
        refine (h hdone).add ?_
        cases o with
        | setImpiMapping s' m => exact ho.elim
        | _ => rfl }
  store := by
    rintro done hs w m o rfl _ hadds h _
    refine ⟨.inl (hD ▸ hadds.1), nofun, fun hv hdone => (h hdone).add ?_⟩
    rcases serve_setImpiMapping_cases w s m with ⟨hv', -, -⟩ | ⟨-, hcont, -⟩
    · exact absurd hv' hv
    · -- A store that was refused is none.
      refine if_neg fun hcond => ?_
      rw [hcont] at hcond
      cases hcond.2.1
  present _ _ _ _ _ := nofun
  error _ _ _ _ := nofun
  remove := by
    rintro hs w m o rfl _ ⟨old, -, hold⟩ h _
    refine ⟨.inr (h rfl), fun _ => (h rfl).add (if_neg fun hcond => ?_)⟩
    -- What is written back lacks the default IMPU.
    have hmem := hcond.2.2
    rw [hold, hD] at hmem
    simp at hmem
  delete := by
    rintro hs w m o rfl _ _ _ h _
    exact ⟨h rfl, fun _ => (h rfl).add rfl⟩

/-- The second client. -/
theorem safe_second (hD : irs.defaultImpu = D) :
    Safe serve (storing s D) (fun _ _ _ => True) (putIrsAction irs s) [] w := by
  let A : History → Prop := fun hs =>
    NoneStored (associatedStored s D) hs ∧ NoneStored (mappingStored s D) hs
  have hA : ∀ {hs w} {o : Call}, o.IsRead ∨ o.StoresDefault → A hs → A (hs.add o w) := by
    intro hs w o ho h
    refine ⟨h.1.add ?_, h.2.add ?_⟩
    · cases o with
      | setImpuWithoutCas s' impu =>
        cases impu with
        | default d => rfl
        | associated a => exact (ho.elim id id).elim
      | _ => rfl
    · cases o with
      | setImpiMapping s' m => exact (ho.elim id id).elim
      | _ => rfl
  have hstores : ∀ hs w (o : Call), o.StoresDefault → (storing s D).guar hs w o := by
    intro hs w o ho
    cases o with
    | deleteImpu s' impu => exact ho.elim
    | deleteImpiMapping s' m => exact ho.elim
    | setImpiMapping s' m => exact ho.elim
    | _ => trivial
  have hnone : A [] := ⟨by simp [NoneStored], by simp [NoneStored]⟩
  refine (safe_putIrsAction (R := fun irs' hs _ => irs'.defaultImpu = irs.defaultImpu ∧ A hs)
    (T := fun _ _ _ => True) (E := fun _ _ _ => True)
    (safe_putIrsImpu_free (A := A) readsFree_storing hstores hA hnone) ?_).weaken
    fun _ _ _ _ => trivial
  -- With the record written, the associated IMPUs come first and the mappings last.
  rintro irs' hs' w' ⟨hirs', hassoc, hmap⟩
  refine (safe_updateIrsAssociatedImpus readsFree_storing relyLater_storing
    associatedRule_storing ⟨fun _ => hassoc, hmap⟩).bind fun _ hs₁ w₁ hq => ?_
  obtain ⟨-, -, hmap₁⟩ := hq w₁ ((storing s D).rely_refl w₁)
  exact (safe_updateIrsImpiMappings readsFree_storing relyLater_storing
    (mappingRule_storing (hirs'.trans hD)) fun _ => hmap₁).weaken fun _ _ _ _ => trivial

end Second

/-! ### Every run -/

/-- The condition on a run: every delete of the first client meets `DeletesWhatItRead`. -/
def FirstDeletesWhatItRead (i : Party) (_ : History) (w : World) (o : Call) : Prop :=
  i = .first → DeletesWhatItRead w o

instance (i : Party) (hs : History) (w : World) (o : Call) :
    Decidable (FirstDeletesWhatItRead i hs w o) :=
  inferInstanceAs (Decidable (_ → _))

/-- The two contracts. -/
def partyContract (s : StoreId) (D : String) : Party → Contract Call Call.Resp World
  | .first => removing s D
  | .second => storing s D

/-- In every run whose deletes by the first client remove what that client has read, all that
the second client has stored survives, at every moment and so also when both have finished. -/
theorem removals_keep_entries (s : StoreId) (w : World) (action : IrsAction) (irs₁ irs₂ : Irs)
    (hne : irs₁.defaultImpu ≠ irs₂.defaultImpu) (is : List Party)
    (hmeets : Pool.Meets serve FirstDeletesWhatItRead is (partyPool s w action irs₁ irs₂)) :
    let c := Pool.run serve is (partyPool s w action irs₁ irs₂)
    Survives s irs₂.defaultImpu c.world c.trace := by
  have hstart : Pool.Sound serve (partyContract s irs₂.defaultImpu) (fun _ _ _ _ => True)
      (Survives s irs₂.defaultImpu) (partyPool s w action irs₁ irs₂) := by
    refine ⟨fun i => ?_, fun _ _ h => absurd h List.not_mem_nil, fun tr₁ e tr₂ _ h => ?_⟩
    · cases i with
      | first => exact safe_first action hne
      | second => exact safe_second rfl
    · simp [partyPool, Pool.start] at h
  refine (hstart.run ?_ ?_ is ?_).inv
  · intro i j w tr o _ _ _
    have hmoves : MovesOn s w (serve o w).2 := ⟨serve_later_impus o w s, serve_later_mappings o w s⟩
    cases j <;> exact hmoves
  · intro i w tr o h hg
    refine survives_step h ?_ ?_
    · rintro rfl
      exact hg
    · rintro rfl
      exact hg
  · refine Pool.Meets.mono serve ?_ hmeets
    intro i hs w o hcond
    cases i with
    | first => exact hcond rfl
    | second => trivial

/-- A subscriber with one IMPI and one associated IMPU. -/
def sharedRecord : DefaultImpuData where
  registrationState := true
  serviceProfile := "one"
  expiry := 100
  assocImpu := ["sip:shared@example.com"]
  impis := ["impi@example.com"]
  ecfs := []
  ccfs := []

/-- The store with the record, the associated IMPU and the mapping of that subscriber. -/
def sharedWorld : World :=
  .ofTables [("sip:one@example.com", .default sharedRecord),
    ("sip:shared@example.com", .associated "sip:one@example.com" 100)]
    [("impi@example.com", { defaultImpus := ["sip:one@example.com"], expiry := 100 })]

/-- The IRS of that subscriber, as a lookup builds it. -/
def sharedIrs : Irs := .ofDefaultImpu (sharedRecord.fromData "sip:one@example.com" 1 0) 0

/-- A registration of another subscriber with the same IMPI and the same associated IMPU. -/
def takeoverIrs : Irs :=
  (Irs.blank 0 .unknown).applyAll
    (.ofTable [("two", ["sip:two@example.com", "sip:shared@example.com"])])
    (regSetters (some "impi@example.com") {} "two" 300)

/-- The deletion of the first IRS and the registration of the second. -/
def takeoverPool : Pool Party Call Call.Resp World (Status × Irs) :=
  partyPool 0 sharedWorld .delete sharedIrs takeoverIrs

/-- Each client makes the given numbers of steps, in turns. -/
def turns : List (Party × Nat) → List Party :=
  List.flatMap fun (i, n) => .replicate n i

/-- The first client deletes the associated IMPU and the mapping right after it has read
them, and the second client writes each of them later. -/
theorem removals_keep_entries_takeover :
    let c := Pool.run serve (turns [(.first, 6), (.second, 4), (.first, 3), (.second, 3)])
      takeoverPool
    (c.world.stores 0).mappings.value? "impi@example.com"
        = some (.decoded { defaultImpus := ["sip:two@example.com"], expiry := 300 }) ∧
      Survives 0 "sip:two@example.com" c.world c.trace :=
  ⟨by decide, removals_keep_entries 0 sharedWorld .delete sharedIrs takeoverIrs (by decide) _
    (by decide)⟩

/-- The second client writes the associated IMPU and the mapping between the read and the
delete of the first one. Both entries are gone at the end. -/
theorem entry_lost_by_stale_delete :
    let c := Pool.run serve
      (turns [(.first, 5), (.second, 4), (.first, 3), (.second, 7), (.first, 1)]) takeoverPool
    sharedIrs.defaultImpu ≠ takeoverIrs.defaultImpu ∧ (∀ i, ∃ put, c.prog i = .ret put) ∧
      (c.world.stores 0).impus.value? "sip:shared@example.com" = none ∧
      (c.world.stores 0).mappings.value? "impi@example.com" = none ∧
      ¬ Survives 0 takeoverIrs.defaultImpu c.world c.trace := by
  intro c
  have hgone : (c.world.stores 0).mappings.value? "impi@example.com" = none := by decide
  refine ⟨by decide, fun i => ?_, by decide, hgone, fun hsurvives => ?_⟩
  · cases i with
    | first => exact ⟨_, rfl⟩
    | second => exact ⟨_, rfl⟩
  · have hstored : c.trace.any (fun x => x.1 = .second ∧
        mappingStored 0 takeoverIrs.defaultImpu x.2 = some "impi@example.com") = true := by
      decide
    obtain ⟨⟨i, e⟩, hmem, hx⟩ := List.any_eq_true.mp hstored
    obtain ⟨rfl, he⟩ := of_decide_eq_true hx
    obtain ⟨m, hm, -⟩ := hsurvives.mappings e _ hmem he
    rw [hgone] at hm
    cases hm

end Homestead

import Mathlib.Algebra.Group.Int.Defs
import Homestead.Model.Flows
import Homestead.Proofs.PutTerminates

/-!
# `Homestead.Proofs.MappingExpiry`: mappings and the lifetimes of the records they index

The mapping of an IMPI has one expiry for all the default IMPUs in it. A put writes it in two of its
three loops, counts its own TTL from the clock, and does not look at the expiry that is there.
`Irs.Stamps` says for which IMPIs it does that.

`MappingsOutlive` is the invariant that a mapping needs to be found as long as a record that it
indexes: no such record has a later expiry. `mappingsOutlive_put` is the step lemma, for a put that
`KeepsUp` with the records and mappings in the store, and `mappings_outlive_run` is the result for
every sequence of puts. `mappings_end_early` has two runs that leave a mapping behind its record.
-/

set_option autoImplicit false

namespace Homestead

open CacheProg

/-! ### Expiries -/

/-- A sum of a TTL and a clock reading that is an `int`. -/
theorem toInt32_sum {ttl t : Int} (hlow : -2 ^ 31 ≤ ttl + t) (hhigh : ttl + t < 2 ^ 31) :
    toInt32 (ttl + toInt32 t) = ttl + t := by
  unfold toInt32
  rw [Int.add_bmod_bmod, Int.bmod_def]
  split <;> omega

/-- The clock does not go back. -/
def World.Steady (w : World) : Prop := ∀ ⦃i j : Nat⦄, i ≤ j → w.clock i ≤ w.clock j

theorem Later.clock_le {w w' : World} (h : Later w w') (hclock : w.Steady) :
    w.clock 0 ≤ w'.clock 0 := by
  obtain ⟨n, hn⟩ := h
  simp only [hn]
  exact hclock (Nat.zero_le _)

theorem Later.steady {w w' : World} (h : Later w w') (hclock : w.Steady) :
    w'.Steady := by
  obtain ⟨n, hn⟩ := h
  intro i j hij
  simp only [hn]
  exact hclock (Nat.add_le_add_right hij n)

/-- The put gives the mapping of `impi` a new expiry: the IMPI is unchanged and the IRS refreshed,
or the IMPI is added, unless there is a mapping that does not decode, or the IRS is not refreshed
and its default IMPU is there already. -/
def Irs.Stamps (irs : Irs) (st : ImpuStore) (impi : String) : Prop :=
  irs.impis[impi]? = some .unchanged ∧ irs.refreshed = true ∨
    irs.impis[impi]? = some .added ∧ st.mappings.value? impi ≠ some .corrupt ∧
      ¬ (irs.refreshed = false ∧ st.Maps impi irs.defaultImpu)

/-! ### The passes of `update_irs_impi_mappings` -/

section Passes

variable {irs : Irs} {s : StoreId} {w w' : World} {status : Status} {impi : String}

/-- A refresh that ends. -/
theorem refreshMapping_inv {st b : Status} (he : Eval serve (refreshMapping irs s impi st) w b w') :
    MappingEnds (toInt32 (irs.ttl + toInt32 (w.clock 0))) ((w'.stores s).mappings.cells impi) ∧
      ∀ k, k ≠ impi → (w'.stores s).mappings.cells k = (w.stores s).mappings.cells k := by
  by_cases hdec : (w.stores s).mappings.value? impi = some .corrupt
  · exact absurd he (not_eval_refreshMapping irs s impi st hdec b w')
  · obtain ⟨w₁, he₁, hends, -, -, hothers⟩ := eval_refreshMapping irs s impi st hdec
    obtain ⟨-, rfl⟩ := he.det he₁
    exact ⟨hends, hothers⟩

theorem addMapping_inv {st b : Status} (he : Eval serve (addMapping irs s impi st) w b w') :
    ExpiryAdded irs s impi w w' ∧
      ∀ k, k ≠ impi → (w'.stores s).mappings.cells k = (w.stores s).mappings.cells k := by
  obtain ⟨st', w₁, he₁, hadded, -, -, -, hothers⟩ := eval_addMapping irs s impi st w
  obtain ⟨-, rfl⟩ := he.det he₁
  exact ⟨hadded, hothers⟩

/-- The second loop: each unchanged IMPI of a refreshed IRS has its pass. -/
theorem refreshMappings_inv {st : Status} (he : Eval serve (if irs.refreshed then
      Prog.forEach (irs.impisIn .unchanged) (refreshMapping irs s) st else pure st) w status w') :
    (∀ k, k ∉ irs.impisIn .unchanged →
        (w'.stores s).mappings.cells k = (w.stores s).mappings.cells k) ∧
      (irs.refreshed = true → ∀ impi ∈ irs.impisIn .unchanged, ∃ v, Later w v ∧ Later v w' ∧
        MappingEnds (toInt32 (irs.ttl + toInt32 (v.clock 0)))
          ((w'.stores s).mappings.cells impi)) := by
  cases hr : irs.refreshed with
  | false =>
    rw [hr] at he
    obtain ⟨rfl, rfl⟩ := Eval.ret_iff.mp he
    exact ⟨fun _ _ => rfl, by simp⟩
  | true =>
    rw [hr] at he
    obtain ⟨-, -, hkept, hpass⟩ := Eval.forEach_pass
      (fun w k => (w.stores s).mappings.cells k) (fun _ => True) Later Later.refl
      (fun _ _ _ => .trans)
      (fun k st w st' w' _ he => ⟨trivial, later_of_eval he, (refreshMapping_inv he).2⟩)
      (Data.nodup_elementsInState irs.impis .unchanged) trivial he
    refine ⟨hkept, fun _ impi himpi => ?_⟩
    obtain ⟨st₁, v, st₂, v', -, hpass, hbefore, hafter, -, hcell⟩ := hpass impi himpi
    refine ⟨v, hbefore, (later_of_eval hpass).trans hafter, ?_⟩
    rw [hcell]
    exact (refreshMapping_inv hpass).1

/-- The third loop: each added IMPI has its pass. -/
theorem addMappings_inv {st : Status}
    (he : Eval serve (Prog.forEach (irs.impisIn .added) (addMapping irs s) st) w status w') :
    (∀ k, k ∉ irs.impisIn .added →
        (w'.stores s).mappings.cells k = (w.stores s).mappings.cells k) ∧
      ∀ impi ∈ irs.impisIn .added, ∃ v v', Later w v ∧ Later v v' ∧ Later v' w' ∧
        ExpiryAdded irs s impi v v' ∧
        (v.stores s).mappings.cells impi = (w.stores s).mappings.cells impi ∧
        (w'.stores s).mappings.cells impi = (v'.stores s).mappings.cells impi := by
  obtain ⟨-, -, hkept, hpass⟩ := Eval.forEach_pass
    (fun w k => (w.stores s).mappings.cells k) (fun _ => True) Later Later.refl
    (fun _ _ _ => .trans)
    (fun k st w st' w' _ he => ⟨trivial, later_of_eval he, (addMapping_inv he).2⟩)
    (Data.nodup_elementsInState irs.impis .added) trivial he
  refine ⟨hkept, fun impi himpi => ?_⟩
  obtain ⟨st₁, v, st₂, v', -, hpass, hbefore, hafter, hfound, hleft⟩ := hpass impi himpi
  exact ⟨v, v', hbefore, later_of_eval hpass, hafter, (addMapping_inv hpass).1, hfound, hleft⟩

/-- `update_irs_impi_mappings` when it ends: what it refreshes decodes, and every mapping changes as
the state of its IMPI says. -/
theorem updateIrsImpiMappings_inv (he : Eval serve (updateIrsImpiMappings irs s) w status w') :
    RefreshDecodable irs s w ∧ MappingsOnly s w w' ∧
      ∀ impi, MappingEffect irs impi ((w.stores s).mappings.cells impi)
        ((w'.stores s).mappings.cells impi) := by
  have hdec : RefreshDecodable irs s w := fun hr impi hst hcor =>
    not_eval_updateIrsImpiMappings hr hst hcor _ _ he
  obtain ⟨status', w₁, he₁, -, honly, heffect⟩ := eval_updateIrsImpiMappings irs s hdec
  obtain ⟨-, rfl⟩ := he.det he₁
  exact ⟨hdec, honly, heffect⟩

/-- The two loops that write new expiries, with the passes of an IMPI. -/
theorem passes_updateIrsImpiMappings
    (he : Eval serve (updateIrsImpiMappings irs s) w status w') :
    (irs.refreshed = true → irs.impis[impi]? = some .unchanged → ∃ v, Later w v ∧ Later v w' ∧
        MappingEnds (toInt32 (irs.ttl + toInt32 (v.clock 0)))
          ((w'.stores s).mappings.cells impi)) ∧
      (irs.impis[impi]? = some .added → ∃ v v', Later w v ∧ Later v v' ∧ Later v' w' ∧
        ExpiryAdded irs s impi v v' ∧
        (v.stores s).mappings.cells impi = (w.stores s).mappings.cells impi ∧
        (w'.stores s).mappings.cells impi = (v'.stores s).mappings.cells impi) := by
  rw [updateIrsImpiMappings_eq] at he
  obtain ⟨st₁, w₁, hremoves, hrest⟩ := he.bind_inv
  obtain ⟨st₂, w₂, hrefreshes, hadds⟩ := hrest.bind_inv
  obtain ⟨hkept₂, hrefreshed⟩ := refreshMappings_inv hrefreshes
  obtain ⟨hkept₃, hadded⟩ := addMappings_inv hadds
  obtain ⟨w₁', hremoves', -, -, hkept₁⟩ := eval_removeMappings irs s w
  obtain ⟨-, rfl⟩ := hremoves.det hremoves'
  have hlater₁ : Later w w₁ := later_of_eval hremoves
  have hlater₂ : Later w₁ w₂ := later_of_eval hrefreshes
  have hlater₃ : Later w₂ w' := later_of_eval hadds
  constructor
  · intro hr hst
    obtain ⟨v, hbefore, hafter, hends⟩ := hrefreshed hr impi (Data.mem_elementsInState.mpr hst)
    refine ⟨v, hlater₁.trans hbefore, hafter.trans hlater₃, ?_⟩
    rw [hkept₃ impi (Irs.notMem_impisIn (by simp [hst]))]
    exact hends
  · intro hst
    obtain ⟨v, v', hbefore, hpass, hafter, hadd, hfound, hleft⟩ :=
      hadded impi (Data.mem_elementsInState.mpr hst)
    refine ⟨v, v', (hlater₁.trans hlater₂).trans hbefore, hpass, hafter, hadd, ?_, hleft⟩
    -- The first two loops leave an added IMPI alone.
    rw [hfound, hkept₂ impi (Irs.notMem_impisIn (by simp [hst])),
      hkept₁ impi (Irs.notMem_impisIn (by simp [hst]))]

/-- The expiry of a mapping that was written. -/
theorem MappingEnds.expiry {e : Int} {m : MappingData}
    (h : MappingEnds e ((w.stores s).mappings.cells impi))
    (hm : (w.stores s).mappings.value? impi = some (.decoded m)) : m.expiry = e := by
  obtain ⟨cas, D, hcell⟩ := h
  rw [CasTable.value?_of_cells hcell] at hm
  cases hm
  rfl

/-- The removal of a default IMPU keeps the expiry of a mapping, and adds nothing to it. -/
theorem MappingRemoved.found {E : String} {m' : MappingData}
    (h : MappingRemoved E ((w.stores s).mappings.cells impi) ((w'.stores s).mappings.cells impi))
    (hm' : (w'.stores s).mappings.value? impi = some (.decoded m')) :
    ∃ m, (w.stores s).mappings.value? impi = some (.decoded m) ∧ m.expiry = m'.expiry ∧
      ∀ D ∈ m'.defaultImpus, D ∈ m.defaultImpus := by
  obtain ⟨cas', hcell'⟩ := CasTable.value?_eq_some.mp hm'
  rw [hcell'] at h
  unfold MappingRemoved at h
  split at h
  · rename_i cas m hcell
    refine ⟨m, CasTable.value?_of_cells hcell, ?_⟩
    split at h
    · split at h
      · cases h
      · obtain ⟨cas'', hwritten⟩ := h
        cases hwritten
        exact ⟨rfl, fun D hD => (List.mem_filter.mp hD).1⟩
    · rw [hcell] at h
      cases h
      exact ⟨rfl, fun _ hD => hD⟩
  · exact ⟨m', CasTable.value?_of_cells h.symm, rfl, fun _ hD => hD⟩

/-- The expiry of a mapping that counts from a reading of the clock during the operation. -/
theorem toInt32_sum_between {t : Int} (hlow : -2 ^ 31 ≤ irs.ttl + w.clock 0)
    (hhigh : irs.ttl + w'.clock 0 < 2 ^ 31) (hfrom : w.clock 0 ≤ t) (huntil : t ≤ w'.clock 0) :
    irs.ttl + w.clock 0 ≤ toInt32 (irs.ttl + toInt32 t) ∧
      toInt32 (irs.ttl + toInt32 t) ≤ irs.ttl + w'.clock 0 := by
  rw [toInt32_sum (by omega) (by omega)]
  omega

/-- The expiry of a mapping after its addition. -/
theorem ExpiryAdded.expiry (h : ExpiryAdded irs s impi w w') (hst : irs.impis[impi]? = some .added)
    (hclock : w.Steady) (hlater : Later w w') (hlow : -2 ^ 31 ≤ irs.ttl + w.clock 0)
    (hhigh : irs.ttl + w'.clock 0 < 2 ^ 31) {m' : MappingData}
    (hm' : (w'.stores s).mappings.value? impi = some (.decoded m')) :
    irs.Stamps (w.stores s) impi ∧ irs.ttl + w.clock 0 ≤ m'.expiry ∧
        m'.expiry ≤ irs.ttl + w'.clock 0 ∨
      ¬ irs.Stamps (w.stores s) impi ∧ ∃ m,
        (w.stores s).mappings.value? impi = some (.decoded m) ∧ m.expiry = m'.expiry := by
  have hstamps : irs.Stamps (w.stores s) impi ↔
      (w.stores s).mappings.value? impi ≠ some .corrupt ∧
        ¬ (irs.refreshed = false ∧ (w.stores s).Maps impi irs.defaultImpu) := by
    simp [Irs.Stamps, hst]
  -- Only a mapping that is kept does not count from a reading of the clock.
  cases h with
  | new hends hnone =>
    left
    have hvalue := CasTable.value?_eq_none.mpr hnone
    have huntil : w.clock 0 ≤ w'.clock 0 := hlater.clock_le hclock
    rw [hends.expiry hm']
    refine ⟨hstamps.mpr ⟨by simp [hvalue], ?_⟩, by omega, by omega⟩
    rintro ⟨-, m, hm, -⟩
    rw [hvalue] at hm
    cases hm
  | again hends hticked hdec hbad =>
    left
    have hfrom : w.clock 0 ≤ w.clock 1 := hclock (Nat.zero_le 1)
    have huntil : w.clock 1 ≤ w'.clock 0 := hticked.clock_le ((Later.tick w).steady hclock)
    rw [hends.expiry hm']
    exact ⟨hstamps.mpr ⟨hdec, hbad⟩, toInt32_sum_between hlow hhigh hfrom huntil⟩
  | kept hstays hgood =>
    right
    rw [mappings_value?_congr hstays] at hm'
    refine ⟨fun h => (hstamps.mp h).2 ?_, m', hm', rfl⟩
    obtain ⟨hD, hr⟩ := hgood m' hm'
    exact ⟨hr, m', hm', hD⟩

theorem Irs.stamps_congr {st st' : ImpuStore}
    (h : st'.mappings.cells impi = st.mappings.cells impi) :
    irs.Stamps st' impi ↔ irs.Stamps st impi := by
  unfold Irs.Stamps ImpuStore.Maps CasTable.value?
  rw [h]

/-- The expiry of a mapping after `update_irs_impi_mappings`: a new one counts from the clock during
the operation, and otherwise it is the one that was there. -/
theorem expiry_updateIrsImpiMappings
    (he : Eval serve (updateIrsImpiMappings irs s) w status w') (hclock : w.Steady)
    (hlow : -2 ^ 31 ≤ irs.ttl + w.clock 0) (hhigh : irs.ttl + w'.clock 0 < 2 ^ 31)
    {m' : MappingData} (hm' : (w'.stores s).mappings.value? impi = some (.decoded m')) :
    irs.Stamps (w.stores s) impi ∧ irs.ttl + w.clock 0 ≤ m'.expiry ∧
        m'.expiry ≤ irs.ttl + w'.clock 0 ∨
      ¬ irs.Stamps (w.stores s) impi ∧ ∃ m,
        (w.stores s).mappings.value? impi = some (.decoded m) ∧ m.expiry = m'.expiry := by
  obtain ⟨-, -, heffect⟩ := updateIrsImpiMappings_inv he
  obtain ⟨hrefreshes, hadds⟩ := @passes_updateIrsImpiMappings irs s w w' status impi he
  have hmapping := heffect impi
  have hsame : (w'.stores s).mappings.cells impi = (w.stores s).mappings.cells impi →
      ∃ m, (w.stores s).mappings.value? impi = some (.decoded m) ∧ m.expiry = m'.expiry := by
    intro hcell
    rw [mappings_value?_congr hcell] at hm'
    exact ⟨m', hm', rfl⟩
  unfold MappingEffect at hmapping
  cases hst : irs.impis[impi]? with
  | none =>
    rw [hst] at hmapping
    exact .inr ⟨by simp [Irs.Stamps, hst], hsame hmapping⟩
  | some state =>
    rw [hst] at hmapping
    cases state with
    | deleted =>
      obtain ⟨m, hm, hexpiry, -⟩ := MappingRemoved.found hmapping hm'
      exact .inr ⟨by simp [Irs.Stamps, hst], m, hm, hexpiry⟩
    | unchanged =>
      cases hr : irs.refreshed with
      | true =>
        obtain ⟨v, hbefore, hafter, hends⟩ := hrefreshes hr hst
        have huntil := hafter.clock_le (hbefore.steady hclock)
        rw [hends.expiry hm']
        exact .inl ⟨.inl ⟨hst, hr⟩,
          toInt32_sum_between hlow hhigh (hbefore.clock_le hclock) huntil⟩
      | false =>
        rw [hr] at hmapping
        exact .inr ⟨by simp [Irs.Stamps, hst, hr], hsame hmapping⟩
    | added =>
      -- The pass of the IMPI starts and ends within the operation.
      obtain ⟨v, v', hbefore, hpass, hafter, hadd, hfound, hleft⟩ := hadds hst
      have hclockv := hbefore.steady hclock
      have hfrom := hbefore.clock_le hclock
      have huntil := hafter.clock_le (hpass.steady hclockv)
      rw [mappings_value?_congr hleft] at hm'
      have hexpiry := hadd.expiry hst hclockv hpass (by omega) (by omega) hm'
      rw [Irs.stamps_congr hfound, mappings_value?_congr hfound] at hexpiry
      rcases hexpiry with ⟨hstamps, hlo, hhi⟩ | hkept
      · exact .inl ⟨hstamps, by omega, by omega⟩
      · exact .inr hkept

end Passes

/-! ### The record that a put writes -/

namespace Irs

variable (irs : Irs) (s : StoreId) (w : World)

instance : Decidable (irs.IsCurrent s w) := inferInstanceAs (Decidable (_ ∧ _))

/-- The put takes the store's view of the default IMPU in before it writes. -/
def Rereads : Prop := irs.existing = true ∧ ¬ irs.IsCurrent s w

instance : Decidable (irs.Rereads s w) := inferInstanceAs (Decidable (_ ∧ _))

/-- The IRS as the put writes it. -/
def putOn : Irs :=
  if irs.Rereads s w then
    irs.merged s ((w.stores s).impus.cells irs.defaultImpu) (w.clock (irs.rereadAt s))
  else irs

/-- The reading of the clock that the record is written with. -/
def recordReading : Nat :=
  if irs.Rereads s w then
    irs.rereadAt s + irs.mergeReadings ((w.stores s).impus.cells irs.defaultImpu)
  else 0

/-- The expiry of the record, as long as it is an `int`. -/
def recordExpiry : Int := (irs.putOn s w).ttl + w.clock (irs.recordReading s w)

/-- The add of a new IRS that is not registered leaves the record that is there. The put goes on with
the associated IMPUs and the mappings. -/
def Refused : Prop :=
  irs.existing = false ∧ irs.registrationState ≠ .registered ∧
    (w.stores s).impus.cells irs.defaultImpu ≠ none

/-- The put ends at the default IMPU, which is an associated one by now. -/
def Fails : Prop := irs.Rereads s w ∧ irs.BlockedAt (w.stores s)

/-- The put writes an associated IMPU under the key. -/
def Overwrites (impu : String) : Prop :=
  irs.associatedImpus[impu]? = some .added ∨
    irs.associatedImpus[impu]? = some .unchanged ∧ irs.refreshed = true

/-- The put leaves a default record under the key as it is. -/
def Leaves (impu : String) : Prop :=
  (impu ≠ irs.defaultImpu ∨ irs.Refused s w) ∧ ¬ (irs.putOn s w).Overwrites impu

end Irs

section Record

variable {irs irs' : Irs} {s : StoreId} {w w₁ : World} {status : Status}

@[simp] theorem Irs.putOn_defaultImpu : (irs.putOn s w).defaultImpu = irs.defaultImpu := by
  unfold Irs.putOn
  split
  · exact Irs.merged_defaultImpu _ _ _ _
  · rfl

/-- The first operation of a put, with the IRS and the clock reading that it writes. -/
theorem putIrsImpu_inv (he : Eval serve (putIrsImpu irs s) w (status, irs') w₁) :
    irs.Fails s w ∧ status = .error ∧ w₁.stores = w.stores ∨
      ¬ irs.Fails s w ∧ status = .ok ∧ irs' = irs.putOn s w ∧
        (¬ irs.Refused s w ∧ RecordWrittenAt irs' s (irs.recordReading s w) w w₁ ∨
          irs.Refused s w ∧ w₁.stores = w.stores) := by
  unfold putIrsImpu at he
  cases hex : irs.existing with
  | false =>
    rw [hex] at he
    have hrereads : ¬ irs.Rereads s w := by simp [Irs.Rereads, hex]
    obtain ⟨w₂, he₂, hcase⟩ := eval_createIrsImpu irs s w
    have hcreate : Eval serve (createIrsImpu irs s >>= fun status => pure (status, irs)) w
        (.ok, irs) w₂ := he₂.bind (.ret _ _)
    -- The run is the one that the lemma about the creation describes.
    obtain ⟨heq, rfl⟩ := he.det hcreate
    obtain ⟨rfl, rfl⟩ := Prod.mk.inj heq
    right
    refine ⟨fun h => hrereads h.1, rfl, by simp [Irs.putOn, hrereads], ?_⟩
    rcases hcase with ⟨hwritten, hfree⟩ | ⟨hreg, hcell, hsame⟩
    · left
      refine ⟨?_, by simpa [Irs.recordReading, hrereads] using hwritten⟩
      rintro ⟨-, hreg, hcell⟩
      rcases hfree with h | h
      · exact hreg h
      · exact hcell h
    · exact .inr ⟨⟨hex, hreg, hcell⟩, hsame⟩
  | true =>
    rw [hex] at he
    have hnot : ¬ irs.Refused s w := by simp [Irs.Refused, hex]
    -- A record that cannot be decoded would be read again for ever.
    have hdec : irs.IsCurrent s w ∨
        (w.stores s).impus.value? irs.defaultImpu ≠ some .corrupt := by
      by_contra hbad
      rw [not_or, not_not] at hbad
      exact not_eval_updateIrsImpu irs s hbad.1 hbad.2 _ _ he
    obtain ⟨status₂, irs₂, w₂, he₂, hcase⟩ := eval_updateIrsImpu_clock irs s hdec
    obtain ⟨heq, rfl⟩ := he.det he₂
    obtain ⟨rfl, rfl⟩ := Prod.mk.inj heq
    rcases hcase with ⟨hok, hput⟩ | ⟨herror, -, hblocked, hcur, hsame⟩
    · right
      rcases hput with ⟨hcur, hirs, hwritten⟩ | ⟨hcur, hfree, hirs, hwritten⟩
      · have hrereads : ¬ irs.Rereads s w := fun h => h.2 hcur
        refine ⟨fun h => hrereads h.1, hok, by simp [Irs.putOn, hrereads, hirs], .inl ⟨hnot, ?_⟩⟩
        rw [hirs]
        simpa [Irs.recordReading, hrereads] using hwritten
      · have hrereads : irs.Rereads s w := ⟨hex, hcur⟩
        refine ⟨fun h => hfree h.2, hok, by simp [Irs.putOn, hrereads, hirs], .inl ⟨hnot, ?_⟩⟩
        simpa [Irs.recordReading, hrereads] using hwritten
    · exact .inl ⟨⟨⟨hex, hcur⟩, hblocked⟩, herror, hsame⟩

end Record

/-! ### The invariant -/

/-- No record lives longer than the mappings that it is in. -/
def MappingsOutlive (st : ImpuStore) : Prop :=
  ∀ impi D m d, st.mappings.value? impi = some (.decoded m) → D ∈ m.defaultImpus →
    st.defaultAt D = some d → impi ∈ d.impis → d.expiry ≤ m.expiry

/-- The put of the IRS from `w` to `w'` keeps mappings as long as their records. -/
structure Irs.KeepsUp (irs : Irs) (s : StoreId) (w w' : World) : Prop where
  low : -2 ^ 31 ≤ (irs.putOn s w).ttl + w.clock 0
  high : (irs.putOn s w).ttl + w'.clock 0 < 2 ^ 31
  -- A mapping with a new expiry indexes no other record that lives longer.
  shared : ∀ impi D d, (irs.putOn s w).Stamps (w.stores s) impi →
    (D = irs.defaultImpu ∨ (w.stores s).Maps impi D) → irs.Leaves s w D →
    (w.stores s).defaultAt D = some d → impi ∈ d.impis → d.expiry ≤ irs.recordExpiry s w
  -- A mapping that keeps its expiry lasts as long as the record that is written.
  kept : ¬ irs.Refused s w → ¬ (irs.putOn s w).Overwrites irs.defaultImpu → ∀ impi m,
    impi ∈ (irs.putOn s w).getAssociatedImpis → ¬ (irs.putOn s w).Stamps (w.stores s) impi →
    (w.stores s).mappings.value? impi = some (.decoded m) → irs.defaultImpu ∈ m.defaultImpus →
    irs.recordExpiry s w ≤ m.expiry

theorem mappingsOutlive_empty : MappingsOutlive .empty := by
  intro impi D m d hm
  cases hm

/-! ### One put -/

section Step

variable {irs irs' : Irs} {s : StoreId} {w w₁ w' : World} {status : Status} {impi D : String}
  {m' : MappingData}

/-- The default IMPUs of a mapping after an addition. -/
theorem MappingAdded.mem {E : String}
    (h : MappingAdded E ((w.stores s).mappings.cells impi) ((w'.stores s).mappings.cells impi))
    (hm' : (w'.stores s).mappings.value? impi = some (.decoded m')) (hD : D ∈ m'.defaultImpus) :
    D = E ∨ (w.stores s).Maps impi D := by
  obtain ⟨cas', hcell'⟩ := CasTable.value?_eq_some.mp hm'
  rw [hcell'] at h
  unfold MappingAdded at h
  split at h
  · obtain ⟨cas, expiry, hwritten⟩ := h
    cases hwritten
    exact .inl (List.mem_singleton.mp hD)
  · rename_i cas m hcell
    obtain ⟨cas'', expiry, hwritten⟩ := h
    cases hwritten
    have hvalue := CasTable.value?_of_cells hcell
    dsimp only at hD
    split at hD
    · exact .inr ⟨m, hvalue, hD⟩
    · rcases List.mem_append.mp hD with hD | hD
      · exact .inr ⟨m, hvalue, hD⟩
      · exact .inl (List.mem_singleton.mp hD)
  · rename_i cas hcell
    rw [hcell] at h
    cases h

/-- A mapping that does not decode stays as it is. -/
theorem MappingAdded.decodes {E : String}
    (h : MappingAdded E ((w.stores s).mappings.cells impi) ((w'.stores s).mappings.cells impi))
    (hm' : (w'.stores s).mappings.value? impi = some (.decoded m')) :
    (w.stores s).mappings.value? impi ≠ some .corrupt := by
  intro hcor
  obtain ⟨cas, hcell⟩ := CasTable.value?_eq_some.mp hcor
  rw [hcell] at h
  have hcor' := CasTable.value?_of_cells h
  rw [hm'] at hcor'
  cases hcor'

/-- The default IMPUs of a mapping after a put. Unless it has a new expiry, they were all in it
before. -/
theorem MappingEffect.mem
    (h : MappingEffect irs impi ((w.stores s).mappings.cells impi)
      ((w'.stores s).mappings.cells impi))
    (hm' : (w'.stores s).mappings.value? impi = some (.decoded m')) (hD : D ∈ m'.defaultImpus) :
    (w.stores s).Maps impi D ∨ D = irs.defaultImpu ∧ irs.Stamps (w.stores s) impi := by
  -- A mapping that was left alone had the default IMPU before.
  have hsame : (w'.stores s).mappings.cells impi = (w.stores s).mappings.cells impi →
      (w.stores s).Maps impi D := by
    intro hcell
    rw [mappings_value?_congr hcell] at hm'
    exact ⟨m', hm', hD⟩
  unfold MappingEffect at h
  split at h
  · obtain ⟨m, hm, -, hmem⟩ := h.found hm'
    exact .inl ⟨m, hm, hmem D hD⟩
  · rename_i hst
    rcases h.mem hm' hD with rfl | hmaps
    · by_cases hgood : irs.refreshed = false ∧ (w.stores s).Maps impi irs.defaultImpu
      · exact .inl hgood.2
      · exact .inr ⟨rfl, .inr ⟨hst, h.decodes hm', hgood⟩⟩
    · exact .inl hmaps
  · rename_i hst
    split at h
    · rename_i hr
      rcases h.mem hm' hD with rfl | hmaps
      · exact .inr ⟨rfl, .inl ⟨hst, hr⟩⟩
      · exact .inl hmaps
    · exact .inl (hsame h)
  · exact .inl (hsame h)

/-- The parts of a put that ends. -/
theorem putIrsAction_inv {r : Status × Irs} (he : Eval serve (putIrsAction irs s) w r w') :
    ∃ status irs' w₁, Eval serve (putIrsImpu irs s) w (status, irs') w₁ ∧
      (status ≠ .ok ∧ w' = w₁ ∨
        status = .ok ∧ Updated irs' s w₁ w' ∧ ∃ w₂ status', ImpusOnly s w₁ w₂ ∧ Later w₁ w₂ ∧
          Eval serve (updateIrsImpiMappings irs' s) w₂ status' w') := by
  obtain ⟨⟨status, irs'⟩, w₁, hfirst, hrest⟩ := he.bind_inv
  refine ⟨status, irs', w₁, hfirst, ?_⟩
  have hparts : Eval serve (if status = .ok then _ else _) w₁ r w' := hrest
  split at hparts
  · rename_i hok
    right
    obtain ⟨_, w₂, hassoc, hrest⟩ := hparts.bind_inv
    obtain ⟨status', w₃, himpis, hret⟩ := hrest.bind_inv
    obtain ⟨-, rfl⟩ := Eval.ret_iff.mp hret
    -- The parts are the runs that the lemmas about them describe.
    obtain ⟨w₂', hassoc', honly, heffect⟩ := eval_updateIrsAssociatedImpus irs' s w₁
    obtain ⟨-, rfl⟩ := hassoc.det hassoc'
    obtain ⟨-, honly', hmap⟩ := updateIrsImpiMappings_inv himpis
    refine ⟨hok, ⟨?_, ?_, ?_⟩, w₂, status', honly, later_of_eval hassoc, himpis⟩
    · exact fun s' hs' => (honly'.stores s' hs').trans (honly.stores s' hs')
    · intro impu
      rw [honly'.impus]
      exact heffect impu
    · intro impi
      have hmapped := hmap impi
      rw [honly.mappings] at hmapped
      exact hmapped
  · rename_i hne
    obtain ⟨-, rfl⟩ := Eval.ret_iff.mp hparts
    exact .inl ⟨hne, rfl⟩

/-- The last two operations leave a default record as it is, unless the IRS has an associated IMPU of
that key to write. -/
theorem defaultAt_updated_iff (hu : Updated irs s w₁ w') {d : DefaultImpuData} :
    (w'.stores s).defaultAt D = some d ↔
      (w₁.stores s).defaultAt D = some d ∧ ¬ irs.Overwrites D := by
  constructor
  · intro hd
    have hvalue := ImpuStore.defaultAt_eq_some.mp hd
    obtain ⟨cas, hcell⟩ := CasTable.value?_eq_some.mp hvalue
    refine ⟨ImpuStore.defaultAt_eq_some.mpr
      (CasTable.value?_of_cells (hu.cells_of_default hcell)), fun hwritten => ?_⟩
    obtain ⟨expiry, hassoc⟩ := hu.pointsAt hwritten
    rw [hvalue] at hassoc
    cases hassoc
  · rintro ⟨hd, hfree⟩
    obtain ⟨cas, hcell⟩ := CasTable.value?_eq_some.mp (ImpuStore.defaultAt_eq_some.mp hd)
    -- A default record is removed or replaced only where an associated IMPU is written.
    suffices hsame : (w'.stores s).impus.cells D = (w₁.stores s).impus.cells D by
      rw [hcell] at hsame
      exact ImpuStore.defaultAt_eq_some.mpr (CasTable.value?_of_cells hsame)
    have heffect := hu.impus D
    unfold AssociatedEffect at heffect
    cases hst : irs.associatedImpus[D]? with
    | none => rwa [hst] at heffect
    | some state =>
      rw [hst] at heffect
      cases state with
      | added => exact absurd (.inl hst) hfree
      | unchanged =>
        cases hr : irs.refreshed with
        | true => exact absurd (.inr ⟨hst, hr⟩) hfree
        | false => simpa [hr] using heffect
      | deleted => simpa [AssociatedRemoved, hcell] using heffect

/-- A put from `w` to `w'` that did not fail, with the world `w₁` after its first operation. -/
structure PutDone (irs : Irs) (s : StoreId) (w w₁ w' : World) : Prop where
  record : ¬ irs.Refused s w ∧
      RecordWrittenAt (irs.putOn s w) s (irs.recordReading s w) w w₁ ∨
    irs.Refused s w ∧ w₁.stores = w.stores
  mappings : (w₁.stores s).mappings = (w.stores s).mappings
  updated : Updated (irs.putOn s w) s w₁ w'
  refreshed : RefreshDecodable (irs.putOn s w) s w
  until_end : w.clock (irs.recordReading s w) ≤ w'.clock 0
  expiry : -2 ^ 31 ≤ (irs.putOn s w).ttl + w.clock 0 →
    (irs.putOn s w).ttl + w'.clock 0 < 2 ^ 31 → ∀ impi m',
      (w'.stores s).mappings.value? impi = some (.decoded m') →
      (irs.putOn s w).Stamps (w.stores s) impi ∧ irs.recordExpiry s w ≤ m'.expiry ∧
          m'.expiry ≤ (irs.putOn s w).ttl + w'.clock 0 ∨
        ¬ (irs.putOn s w).Stamps (w.stores s) impi ∧ ∃ m,
          (w.stores s).mappings.value? impi = some (.decoded m) ∧ m.expiry = m'.expiry

theorem putDone_of_eval {r : Status × Irs} (hclock : w.Steady)
    (he : Eval serve (putIrsAction irs s) w r w') :
    irs.Fails s w ∧ w'.stores = w.stores ∨ ¬ irs.Fails s w ∧ ∃ w₁, PutDone irs s w w₁ w' := by
  obtain ⟨status, irs', w₁, hfirst, hrest⟩ := putIrsAction_inv he
  rcases putIrsImpu_inv hfirst with ⟨hfails, rfl, hsame⟩ | ⟨hgood, rfl, rfl, hrecord⟩
  · rcases hrest with ⟨-, rfl⟩ | ⟨hok, -⟩
    · exact .inl ⟨hfails, hsame⟩
    · cases hok
  obtain ⟨-, hu, w₂, status', honly, hlater, himpis⟩ := hrest.resolve_left fun h => h.1 rfl
  -- The mappings are those of the start until the last operation.
  have hmappings₁ : (w₁.stores s).mappings = (w.stores s).mappings := by
    rcases hrecord with ⟨-, hwritten⟩ | ⟨-, hsame⟩
    · exact hwritten.only.mappings
    · rw [hsame]
  have hmappings : (w₂.stores s).mappings = (w.stores s).mappings :=
    honly.mappings.trans hmappings₁
  have hlater₁ : Later w w₁ := later_of_eval hfirst
  have hclock₂ : w₂.Steady := (hlater₁.trans hlater).steady hclock
  have hstart : w.clock 0 ≤ w₂.clock 0 := (hlater₁.trans hlater).clock_le hclock
  have hend : w₂.clock 0 ≤ w'.clock 0 := (later_of_eval himpis).clock_le hclock₂
  -- A new expiry counts from a reading after the one of the record.
  have hreading : w.clock (irs.recordReading s w) ≤ w₂.clock 0 := by
    rcases hrecord with ⟨-, hwritten⟩ | ⟨⟨hex, -⟩, -⟩
    · have hnext : w.clock (irs.recordReading s w) ≤ w₁.clock 0 := by
        simp only [hwritten.clock, Nat.zero_add]
        exact hclock (Nat.le_succ _)
      exact Int.le_trans hnext (hlater.clock_le (hlater₁.steady hclock))
    · have hzero : irs.recordReading s w = 0 := by simp [Irs.recordReading, Irs.Rereads, hex]
      rw [hzero]
      exact hstart
  refine .inr ⟨hgood, w₁, hrecord, hmappings₁, hu, ?_, by omega, fun hlow hhigh impi m' hm' => ?_⟩
  · intro hr impi hst
    rw [← hmappings]
    exact (updateIrsImpiMappings_inv himpis).1 hr impi hst
  · have hnew : irs.recordExpiry s w ≤ (irs.putOn s w).ttl + w₂.clock 0 :=
      Int.add_le_add_left hreading _
    have hexpiry := expiry_updateIrsImpiMappings himpis hclock₂ (by omega) hhigh hm'
    have hcell : (w₂.stores s).mappings.cells impi = (w.stores s).mappings.cells impi := by
      rw [hmappings]
    rw [Irs.stamps_congr hcell, hmappings] at hexpiry
    rcases hexpiry with ⟨hstamps, hlo, hhi⟩ | hnot
    · exact .inl ⟨hstamps, by omega, hhi⟩
    · exact .inr hnot

namespace PutDone

/-- A default record that the put leaves. -/
theorem defaultAt_iff (h : PutDone irs s w w₁ w') {d : DefaultImpuData}
    (hold : D ≠ irs.defaultImpu ∨ irs.Refused s w) :
    (w'.stores s).defaultAt D = some d ↔
      (w.stores s).defaultAt D = some d ∧ ¬ (irs.putOn s w).Overwrites D := by
  rw [defaultAt_updated_iff h.updated]
  rcases h.record with ⟨hnot, hwritten⟩ | ⟨-, hsame⟩
  · have hne : D ≠ (irs.putOn s w).defaultImpu := by
      rw [Irs.putOn_defaultImpu]
      exact hold.resolve_right hnot
    rw [ImpuStore.defaultAt_congr (hwritten.others D hne)]
  · rw [hsame]

/-- The default record that the put writes. -/
theorem defaultAt_self (h : PutDone irs s w w₁ w') (hnot : ¬ irs.Refused s w)
    (hclock : w.Steady) (hlow : -2 ^ 31 ≤ (irs.putOn s w).ttl + w.clock 0)
    (hhigh : (irs.putOn s w).ttl + w'.clock 0 < 2 ^ 31) {d : DefaultImpuData} :
    (w'.stores s).defaultAt irs.defaultImpu = some d ↔
      d = (irs.putOn s w).recordData (irs.recordExpiry s w) ∧
        ¬ (irs.putOn s w).Overwrites irs.defaultImpu := by
  obtain ⟨-, hwritten⟩ := h.record.resolve_right fun hr => hnot hr.1
  obtain ⟨cas, hcell⟩ := hwritten.expiry
  have hfrom : w.clock 0 ≤ w.clock (irs.recordReading s w) := hclock (Nat.zero_le _)
  have huntil := h.until_end
  have hint : toInt32 ((irs.putOn s w).ttl + toInt32 (w.clock (irs.recordReading s w)))
      = irs.recordExpiry s w := toInt32_sum (by omega) (by omega)
  rw [hint, Irs.putOn_defaultImpu] at hcell
  rw [defaultAt_updated_iff h.updated, ImpuStore.defaultAt_eq_some,
    CasTable.value?_of_cells hcell]
  simp [eq_comm]

/-- The default IMPUs of a mapping after the put. -/
theorem mem (h : PutDone irs s w w₁ w')
    (hm' : (w'.stores s).mappings.value? impi = some (.decoded m')) (hD : D ∈ m'.defaultImpus) :
    (w.stores s).Maps impi D ∨
      D = irs.defaultImpu ∧ (irs.putOn s w).Stamps (w.stores s) impi := by
  have hmem := (h.updated.mappings impi).mem hm' hD
  have hcell : (w₁.stores s).mappings.cells impi = (w.stores s).mappings.cells impi := by
    rw [h.mappings]
  rw [Irs.stamps_congr hcell, Irs.putOn_defaultImpu] at hmem
  unfold ImpuStore.Maps at hmem ⊢
  rw [← h.mappings]
  exact hmem

/-- A mapping with a new expiry has the default IMPU of the IRS, and those that it had before. -/
theorem maps_of_stamps (h : PutDone irs s w w₁ w')
    (hstamps : (irs.putOn s w).Stamps (w.stores s) impi)
    (hD : D = irs.defaultImpu ∨ (w.stores s).Maps impi D) : (w'.stores s).Maps impi D := by
  by_cases hself : D = irs.defaultImpu
  · rw [hself, ← Irs.putOn_defaultImpu]
    rcases hstamps with ⟨hst, hr⟩ | ⟨hst, hdec, -⟩
    · refine h.updated.maps (.inr ⟨hst, hr⟩) ?_
      rw [h.mappings]
      exact h.refreshed hr impi hst
    · refine h.updated.maps (.inl hst) ?_
      rw [h.mappings]
      exact hdec
  · obtain ⟨m, hm, hmem⟩ := hD.resolve_left hself
    refine h.updated.maps_of_maps ⟨m, ?_, hmem⟩ (.inl ?_)
    · rw [h.mappings]
      exact hm
    · rw [Irs.putOn_defaultImpu]
      exact hself

end PutDone

/-- `put_irs_action` keeps the invariant when the IRS keeps up. -/
theorem mappingsOutlive_putIrsAction {r : Status × Irs} (hclock : w.Steady)
    (he : Eval serve (putIrsAction irs s) w r w') (hkeeps : ¬ irs.Fails s w → irs.KeepsUp s w w')
    (hinv : MappingsOutlive (w.stores s)) : MappingsOutlive (w'.stores s) := by
  rcases putDone_of_eval hclock he with ⟨-, hsame⟩ | ⟨hgood, w₁, hput⟩
  · rw [hsame]
    exact hinv
  obtain ⟨hlow, hhigh, hshared, hkept⟩ := hkeeps hgood
  intro impi D m' d hm' hD hd himpi
  have hexpiry := hput.expiry hlow hhigh impi m' hm'
  have hmem := hput.mem hm' hD
  by_cases hold : D ≠ irs.defaultImpu ∨ irs.Refused s w
  · -- A record that was there before.
    obtain ⟨hd₀, hfree⟩ := (hput.defaultAt_iff hold).mp hd
    rcases hexpiry with ⟨hstamps, hnew, -⟩ | ⟨hnot, m, hm, hsame⟩
    · have hle : d.expiry ≤ irs.recordExpiry s w :=
        hshared impi D d hstamps (hmem.symm.imp_left And.left) ⟨hold, hfree⟩ hd₀ himpi
      omega
    · obtain ⟨m₀, hm₀, hD₀⟩ := hmem.resolve_right fun h => hnot h.2
      have hle := hinv impi D m₀ d hm₀ hD₀ hd₀ himpi
      rw [hm] at hm₀
      cases hm₀
      omega
  · -- The record that was written.
    rw [not_or, not_not] at hold
    obtain ⟨rfl, hnot⟩ := hold
    obtain ⟨rfl, hfree⟩ := (hput.defaultAt_self hnot hclock hlow hhigh).mp hd
    show irs.recordExpiry s w ≤ m'.expiry
    rcases hexpiry with ⟨-, hnew, -⟩ | ⟨hnot', m, hm, hsame⟩
    · exact hnew
    · obtain ⟨m₀, hm₀, hD₀⟩ := hmem.resolve_right fun h => hnot' h.2
      have hle := hkept hnot hfree impi m₀ himpi hnot' hm₀ hD₀
      rw [hm] at hm₀
      cases hm₀
      omega

/-- The condition is exact but for the time that the put itself takes: if the clock stands still during
a put that ends with the invariant, then the IRS has kept up. -/
theorem keepsUp_of_mappingsOutlive {r : Status × Irs} (hclock : w.Steady)
    (he : Eval serve (putIrsAction irs s) w r w') (hgood : ¬ irs.Fails s w)
    (hquick : w'.clock 0 = w.clock 0) (hlow : -2 ^ 31 ≤ (irs.putOn s w).ttl + w.clock 0)
    (hhigh : (irs.putOn s w).ttl + w'.clock 0 < 2 ^ 31)
    (hinv : MappingsOutlive (w'.stores s)) : irs.KeepsUp s w w' := by
  obtain ⟨-, w₁, hput⟩ := (putDone_of_eval hclock he).resolve_left fun h => hgood h.1
  have hfrom : w.clock 0 ≤ w.clock (irs.recordReading s w) := hclock (Nat.zero_le _)
  have huntil := hput.until_end
  have hnow : (irs.putOn s w).ttl + w'.clock 0 = irs.recordExpiry s w := by
    unfold Irs.recordExpiry
    omega
  refine ⟨hlow, hhigh, ?_, ?_⟩
  · intro impi D d hstamps hD hleaves hd himpi
    -- The mapping has `D` after the put, and a new expiry.
    obtain ⟨m', hm', hD'⟩ := hput.maps_of_stamps hstamps hD
    have hle := hinv impi D m' d hm' hD' ((hput.defaultAt_iff hleaves.1).mpr ⟨hd, hleaves.2⟩) himpi
    rcases hput.expiry hlow hhigh impi m' hm' with ⟨-, -, hhi⟩ | ⟨hnot, -⟩
    · omega
    · exact absurd hstamps hnot
  · intro hnot hfree impi m himpi hkeeps hm hD
    have hstate : (irs.putOn s w).impis[impi]? ≠ some .deleted := by
      intro hst
      rcases Data.mem_present.mp himpi with h | h <;> simp [hst] at h
    have hmaps₁ : (w₁.stores s).Maps impi irs.defaultImpu := ⟨m, by rw [hput.mappings, hm], hD⟩
    obtain ⟨m', hm', hD'⟩ := hput.updated.maps_of_maps hmaps₁ (.inr hstate)
    have hrecord := (hput.defaultAt_self hnot hclock hlow hhigh).mpr ⟨rfl, hfree⟩
    have hle : irs.recordExpiry s w ≤ m'.expiry := hinv impi _ m' _ hm' hD' hrecord himpi
    rcases hput.expiry hlow hhigh impi m' hm' with ⟨hstamps, -⟩ | ⟨-, m₀, hm₀, hsame⟩
    · exact absurd hstamps hkeeps
    · rw [hm] at hm₀
      cases hm₀
      omega

/-- A put with no remote store is `put_irs_action` on the local one, if anything has changed. -/
theorem putImplicitRegistrationSet_inv {cache : MemcachedCache} (hremote : cache.remoteStores = [])
    {r : Status × Irs} (he : Eval serve (cache.putImplicitRegistrationSet irs) w r w') :
    w' = w ∨ irs.hasChanged = true ∧
      ∃ r', Eval serve (putIrsAction irs cache.localStore) w r' w' := by
  unfold MemcachedCache.putImplicitRegistrationSet at he
  split at he
  · rename_i hchanged
    obtain ⟨r', w₁, haction, hrest⟩ := he.bind_inv
    rw [hremote] at hrest
    refine .inr ⟨hchanged, r', ?_⟩
    split at hrest
    · obtain ⟨_, w₂, hcb, hret⟩ := hrest.bind_inv
      obtain ⟨-, rfl⟩ := hcb.det (eval_progressCb _)
      obtain ⟨-, rfl⟩ := Eval.ret_iff.mp hret
      exact haction
    · obtain ⟨-, rfl⟩ := Eval.ret_iff.mp hrest
      exact haction
  · obtain ⟨_, w₂, hcb, hret⟩ := he.bind_inv
    obtain ⟨-, rfl⟩ := hcb.det (eval_progressCb _)
    obtain ⟨-, rfl⟩ := Eval.ret_iff.mp hret
    exact .inl rfl

end Step

/-! ### Runs -/

/-- Between two puts time passes, and the store may drop data that has expired. -/
structure Lapses (s : StoreId) (w w' : World) : Prop where
  later : Later w w'
  impus : ∀ impu, (w'.stores s).impus.value? impu = (w.stores s).impus.value? impu ∨
    (w'.stores s).impus.value? impu = none
  mappings : ∀ impi, (w'.stores s).mappings.value? impi = (w.stores s).mappings.value? impi ∨
    (w'.stores s).mappings.value? impi = none

/-- The states between the puts of a run on the local store, from `w₀` on. Each put is complete when
the next one starts, and `C` holds of it. -/
inductive PutRun (cache : MemcachedCache) (C : Irs → World → World → Prop) (w₀ : World) :
    World → Prop
  | start : PutRun cache C w₀ w₀
  | put {w w' : World} {irs : Irs} {r : Status × Irs} (h : PutRun cache C w₀ w)
      (he : Eval serve (cache.putImplicitRegistrationSet irs) w r w') (hput : C irs w w') :
      PutRun cache C w₀ w'
  | lapse {w w' : World} (h : PutRun cache C w₀ w) (hlapse : Lapses cache.localStore w w') :
      PutRun cache C w₀ w'

/-- A put that writes anything keeps up. -/
def Irs.InTime (irs : Irs) (s : StoreId) (w w' : World) : Prop :=
  irs.hasChanged = true → ¬ irs.Fails s w → irs.KeepsUp s w w'

/-- Data that is dropped breaks nothing. -/
theorem mappingsOutlive_lapses {s : StoreId} {w w' : World} (h : Lapses s w w')
    (hinv : MappingsOutlive (w.stores s)) : MappingsOutlive (w'.stores s) := by
  intro impi D m d hm hD hd himpi
  rw [ImpuStore.defaultAt_eq_some] at hd
  have hm₀ : (w.stores s).mappings.value? impi = some (.decoded m) := by
    rcases h.mappings impi with heq | hnone
    · rw [← heq]
      exact hm
    · rw [hnone] at hm
      cases hm
  have hd₀ : (w.stores s).impus.value? D = some (.decoded (.default d)) := by
    rcases h.impus D with heq | hnone
    · rw [← heq]
      exact hd
    · rw [hnone] at hd
      cases hd
  exact hinv impi D m d hm₀ hD (ImpuStore.defaultAt_eq_some.mpr hd₀) himpi

/-- Time goes on in a run. -/
theorem PutRun.later {cache : MemcachedCache} {C : Irs → World → World → Prop} {w₀ w : World}
    (h : PutRun cache C w₀ w) : Later w₀ w := by
  induction h with
  | start => exact .refl _
  | put _ he _ ih => exact ih.trans (later_of_eval he)
  | lapse _ hlapse ih => exact ih.trans hlapse.later

/-- In every run of complete puts on one reliable store, with any passage of time: when every put
keeps up, no record lives longer than the mappings that it is in, in any state between the puts. -/
theorem mappings_outlive_run (cache : MemcachedCache) (hremote : cache.remoteStores = [])
    {w₀ w : World} (hclock : w₀.Steady)
    (hstart : MappingsOutlive (w₀.stores cache.localStore))
    (h : PutRun cache (fun irs => irs.InTime cache.localStore) w₀ w) :
    MappingsOutlive (w.stores cache.localStore) := by
  induction h with
  | start => exact hstart
  | put hrun he hput ih =>
    rcases putImplicitRegistrationSet_inv hremote he with rfl | ⟨hchanged, r', haction⟩
    · exact ih
    · exact mappingsOutlive_putIrsAction (hrun.later.steady hclock) haction (hput hchanged) ih
  | lapse _ hlapse ih => exact mappingsOutlive_lapses hlapse ih

/-! ### Two subscriptions with one private identity -/

/-- Two documents, of one identity each. -/
def lineProfiles : XmlParser :=
  .ofTable [("d", ["sip:d@example.com"]), ("e", ["sip:e@example.com"])]

/-- The first registration of one of the two. Both are from the same private identity. -/
def lineIrs (xml : String) (ttl : Int) : Irs :=
  (Irs.new 0 .notRegistered).applyAll lineProfiles
    (Request.reg (some "impi@example.com") {} xml ttl).setters

def lineStore : MemcachedCache := ⟨0, []⟩

/-- An empty store. After two readings the clock is thirty seconds later. -/
def lineWorld : World where
  stores _ := .empty
  clock n := if n < 2 then 0 else 30

theorem steady_lineWorld : lineWorld.Steady := by
  intro i j hij
  simp only [lineWorld]
  split <;> split <;> omega

/-- The expiry of the mapping of `impi` and that of the record of `D`, if each lists the other. -/
def lifetimes (impi D : String) (st : ImpuStore) : Option (Int × Int) :=
  match st.mappings.value? impi, st.defaultAt D with
  | some (.decoded m), some d =>
    if D ∈ m.defaultImpus ∧ impi ∈ d.impis then some (m.expiry, d.expiry) else none
  | _, _ => none

theorem MappingsOutlive.lifetimes {impi D : String} {st : ImpuStore} {mapping record : Int}
    (hinv : MappingsOutlive st) (h : lifetimes impi D st = some (mapping, record)) :
    record ≤ mapping := by
  unfold Homestead.lifetimes at h
  split at h
  · rename_i m d hm hd
    split at h
    · rename_i hlisted
      cases h
      exact hinv impi D m d hm hlisted.1 hd hlisted.2
    · cases h
  · cases h

/-- The puts of some IRSs in order. -/
def runPuts : List Irs → World → Option World
  | [], w => some w
  | irs :: irss, w =>
    (Prog.exec serve 40 (lineStore.putImplicitRegistrationSet irs) w).bind fun p =>
      runPuts irss p.2

theorem putRun_of_runPuts {irss : List Irs} {w₀ w w' : World}
    (h : PutRun lineStore (fun _ _ _ => True) w₀ w) (hrun : runPuts irss w = some w') :
    PutRun lineStore (fun _ _ _ => True) w₀ w' := by
  induction irss generalizing w with
  | nil =>
    cases hrun
    exact h
  | cons irs irss ih =>
    obtain ⟨⟨r, w₁⟩, hexec, hrest⟩ := Option.bind_eq_some_iff.mp hrun
    exact ih (h.put (Prog.eval_of_exec hexec) trivial) hrest

/-- The first registration on the empty store keeps up. -/
theorem inTime_lineIrs {w' : World} (hlater : Later lineWorld w') :
    (lineIrs "d" 300).InTime 0 lineWorld w' := by
  have hput : (lineIrs "d" 300).putOn 0 lineWorld = lineIrs "d" 300 := by
    unfold Irs.putOn
    rw [if_neg (fun h : Irs.Rereads _ _ _ => absurd h.1 (by decide))]
  have httl : (lineIrs "d" 300).ttl = 300 := by decide
  have hend : w'.clock 0 ≤ 30 := by
    obtain ⟨n, hn⟩ := hlater
    simp only [hn, lineWorld]
    split <;> omega
  intro _ _
  refine ⟨?_, ?_, ?_, ?_⟩
  · rw [hput, httl]
    decide
  · rw [hput, httl]
    omega
  · -- There is no record yet.
    intro impi D d _ _ _ hd
    cases hd
  · -- Nor a mapping.
    intro _ _ impi m _ _ hm
    cases hm

theorem mappings_outlive_run_registration : ∃ w, runPuts [lineIrs "d" 300] lineWorld = some w ∧
    lifetimes "impi@example.com" "sip:d@example.com" (w.stores 0) = some (300, 300) ∧
    MappingsOutlive (w.stores 0) := by
  have hrun : ((runPuts [lineIrs "d" 300] lineWorld).map fun w =>
      lifetimes "impi@example.com" "sip:d@example.com" (w.stores 0)) = some (some (300, 300)) := by
    decide
  obtain ⟨w, hw, hlifetimes⟩ := Option.map_eq_some_iff.mp hrun
  obtain ⟨⟨r, w₁⟩, hexec, hlast⟩ := Option.bind_eq_some_iff.mp hw
  cases hlast
  have heval := Prog.eval_of_exec hexec
  exact ⟨w₁, hw, hlifetimes, mappings_outlive_run lineStore rfl steady_lineWorld
    mappingsOutlive_empty (.put .start heval (inTime_lineIrs (later_of_eval heval)))⟩

/-- The record of `d` after its registration, read at once and given charging addresses. -/
def staleIrs : Irs :=
  (Irs.ofDefaultImpu
    { impu := "sip:d@example.com", associatedImpus := [], impis := ["impi@example.com"]
      registrationState := .registered, chargingAddresses := {}, serviceProfile := "d", cas := 1
      expiry := 300, store := some 0 } 0).setChargingAddresses { ccfs := ["ccf"], ecfs := [] }

/-- Two runs from the empty store, after which the record of `d` lives longer than the mapping that
it is in: `d` registers, and then `e` registers for a shorter time, or the charging addresses of `d`
are put thirty seconds after `d` was read. -/
theorem mappings_end_early :
    lineWorld.Steady ∧ lineWorld.stores 0 = .empty ∧
      ∀ last ∈ [lineIrs "e" 100, staleIrs], ∃ w,
        PutRun lineStore (fun _ _ _ => True) lineWorld w ∧ ¬ MappingsOutlive (w.stores 0) := by
  refine ⟨steady_lineWorld, rfl, fun last hlast => ?_⟩
  have hrun : ∃ mapping record : Int, mapping < record ∧
      ((runPuts [lineIrs "d" 300, last] lineWorld).map fun w =>
        lifetimes "impi@example.com" "sip:d@example.com" (w.stores 0))
      = some (some (mapping, record)) := by
    rcases List.mem_cons.mp hlast with rfl | hlast
    · exact ⟨130, 300, by decide, by decide⟩
    · rw [List.mem_singleton.mp hlast]
      exact ⟨300, 330, by decide, by decide⟩
  obtain ⟨mapping, record, hlt, hrun⟩ := hrun
  obtain ⟨w, hw, hlifetimes⟩ := Option.map_eq_some_iff.mp hrun
  refine ⟨w, putRun_of_runPuts .start hw, fun hinv => ?_⟩
  have hle := hinv.lifetimes hlifetimes
  omega

end Homestead

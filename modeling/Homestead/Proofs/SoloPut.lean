import Homestead.Proofs.Solo

/-!
# `Homestead.Proofs.SoloPut`: put and delete alone on a reliable store

`perform_irs_impu_action` and the two actions built from it, when no other client is
active.

* `eval_updateIrsImpu` and `eval_deleteIrsImpu` give the result of
  `perform_irs_impu_action` for its two actions, and `not_eval_updateIrsImpu` the case in
  which it never ends.
* `eval_putIrsAction` and `eval_deleteIrsAction` give the effect of a whole put or delete
  on one store, table by table.
-/

set_option autoImplicit false

namespace Homestead

open CacheProg

/-! ### Records -/

/-- What `create_impu` stores for the IRS, by the expiry it computes. -/
def Irs.recordData (irs : Irs) (expiry : Int) : DefaultImpuData where
  registrationState := decide (irs.registrationState = .registered)
  serviceProfile := irs.imsSubXml
  expiry := expiry
  assocImpu := irs.getAssociatedImpus
  impis := irs.getAssociatedImpis
  ecfs := irs.chargingAddresses.ecfs
  ccfs := irs.chargingAddresses.ccfs

/-- The IRS after the re-read of its default IMPU found `cell`. -/
def Irs.merged (irs : Irs) (s : StoreId) (cell : Option (Nat × Blob ImpuData)) (now : Int) :
    Irs :=
  match cell with
  | some (cas, .decoded (.default d)) =>
    irs.updateFromImpuFromStore (d.fromData irs.defaultImpu cas s) now
  | _ => irs

@[simp] theorem Irs.merged_defaultImpu (irs : Irs) (s : StoreId)
    (cell : Option (Nat × Blob ImpuData)) (now : Int) :
    (irs.merged s cell now).defaultImpu = irs.defaultImpu := by
  unfold merged
  split <;> rfl

@[simp] theorem Irs.merged_refreshed (irs : Irs) (s : StoreId)
    (cell : Option (Nat × Blob ImpuData)) (now : Int) :
    (irs.merged s cell now).refreshed = irs.refreshed := by
  unfold merged
  split <;> rfl

@[simp] theorem Irs.merged_store (irs : Irs) (s : StoreId)
    (cell : Option (Nat × Blob ImpuData)) (now : Int) :
    (irs.merged s cell now).store = irs.store := by
  unfold merged
  split <;> rfl

/-- The IRS was read from the store `s`, and the record is still the one it was read from. -/
def Irs.IsCurrent (irs : Irs) (s : StoreId) (w : World) : Prop :=
  irs.store = some s ∧ (w.stores s).impus.version irs.defaultImpu = irs.cas

/-- Between `w` and `w'` the record of `irs` was written, and no other record changed. -/
structure RecordWritten (irs : Irs) (s : StoreId) (w w' : World) : Prop where
  only : ImpusOnly s w w'
  written : ∃ cas expiry, (w'.stores s).impus.cells irs.defaultImpu
    = some (cas, .decoded (.default (irs.recordData expiry)))
  others : ∀ k, k ≠ irs.defaultImpu →
    (w'.stores s).impus.cells k = (w.stores s).impus.cells k

/-- The record was written with the reading `n` of the clock, which was the last one. -/
structure RecordWrittenAt (irs : Irs) (s : StoreId) (n : Nat) (w w' : World) : Prop
    extends RecordWritten irs s w w' where
  expiry : ∃ cas, (w'.stores s).impus.cells irs.defaultImpu
    = some (cas, .decoded (.default (irs.recordData (toInt32 (irs.ttl + toInt32 (w.clock n))))))
  clock : w'.clock = fun i => w.clock (i + (n + 1))

/-- A write of the record that `create_impu` builds. -/
theorem recordWrittenAt_setImpus (irs : Irs) (s : StoreId) {w v : World} (cas : Nat)
    (store : Option StoreId) {n : Nat} (hv : v.stores = w.stores)
    (hclock : v.clock = fun i => w.clock (i + (n + 1))) :
    RecordWrittenAt irs s n w (v.setImpus s ((v.stores s).impus.put irs.defaultImpu
      (.decoded (Impu.default (irs.createImpu cas store (w.clock n))).toData))) where
  only := by
    have honly : ImpusOnly s w v := ⟨fun s' _ => by rw [hv], by rw [hv]⟩
    exact honly.trans (.setImpus s v _)
  written := by
    rw [World.setImpus_stores_self]
    exact ⟨_, _, CasTable.put_cells_self _ _ _⟩
  others k hk := by
    rw [World.setImpus_stores_self]
    show ((v.stores s).impus.put _ _).cells k = _
    rw [CasTable.put_cells_ne _ _ hk, hv]
  expiry := by
    rw [World.setImpus_stores_self]
    exact ⟨_, CasTable.put_cells_self _ _ _⟩
  clock := hclock

/-- The same after the readings `m` that came before. -/
theorem RecordWrittenAt.later {irs : Irs} {s : StoreId} {m n : Nat} {w v w' : World}
    (h : RecordWrittenAt irs s n v w') (hstores : v.stores = w.stores)
    (hclock : v.clock = fun i => w.clock (i + m)) : RecordWrittenAt irs s (m + n) w w' where
  only := ⟨fun s' hs' => by rw [h.only.stores s' hs', hstores],
    by rw [h.only.mappings, hstores]⟩
  written := h.written
  others k hk := by rw [h.others k hk, hstores]
  expiry := by
    have hexpiry := h.expiry
    simp only [hclock, Nat.add_comm n m] at hexpiry
    exact hexpiry
  clock := by
    rw [h.clock, hclock]
    funext i
    show w.clock (i + (n + 1) + m) = w.clock (i + (m + n + 1))
    congr 1
    omega

/-- `update_from_impu_from_store`. An IRS that is not refreshed reads the clock. -/
theorem eval_mergeFromStore_clock (irs : Irs) (d : DefaultImpu) (w : World) :
    Eval serve (irs.mergeFromStore d) w (irs.updateFromImpuFromStore d (w.clock 0))
      (if irs.refreshed then w else w.tick) := by
  unfold Irs.mergeFromStore
  cases hr : irs.refreshed with
  | true =>
    -- A refreshed IRS keeps its TTL, whatever the clock reads.
    have hsame : irs.updateFromImpuFromStore d (w.clock 0) = irs.updateFromImpuFromStore d 0 := by
      simp [Irs.updateFromImpuFromStore, hr]
    rw [hsame]
    exact .ret _ _
  | false => exact (eval_timeNow w).bind (.ret _ _)

theorem eval_mergeFromStore (irs : Irs) (d : DefaultImpu) (w : World) :
    ∃ now w', Eval serve (irs.mergeFromStore d) w (irs.updateFromImpuFromStore d now) w' ∧
      w'.stores = w.stores := by
  refine ⟨_, _, eval_mergeFromStore_clock irs d w, ?_⟩
  split <;> rfl

/-- How often the clock is read before the write, once the re-read of the default IMPU has found
`cell`: the merge of a record reads it for an IRS that is not refreshed. -/
def Irs.mergeReadings (irs : Irs) : Option (Nat × Blob ImpuData) → Nat
  | some (_, .decoded (.default _)) => if irs.refreshed then 0 else 1
  | _ => 0

/-! ### `perform_irs_impu_action` -/

/-- The key of the IRS holds an associated IMPU, which an IRS that is not refreshed does not
overwrite. -/
def Irs.BlockedAt (irs : Irs) (st : ImpuStore) : Prop :=
  irs.refreshed = false ∧ ∃ D, st.PointsAt irs.defaultImpu D

/-- The pass that re-reads, for `set_impu`. It writes the merged record, or fails because
the key holds an associated IMPU and the IRS is not refreshed. -/
theorem eval_rereadPass_setImpu (irs : Irs) (s : StoreId) {w : World}
    (hdec : (w.stores s).impus.value? irs.defaultImpu ≠ some .corrupt) :
    ∃ status irs' w', Eval serve (rereadPass .setImpu s irs) w
        { status := status, irs := irs', impu := none } w' ∧
      (status = .ok ∧ ¬ irs.BlockedAt (w.stores s) ∧
          irs' = irs.merged s ((w.stores s).impus.cells irs.defaultImpu) (w.clock 0) ∧
          RecordWrittenAt irs' s
            (irs.mergeReadings ((w.stores s).impus.cells irs.defaultImpu)) w w' ∨
        status = .error ∧ irs' = irs ∧ irs.BlockedAt (w.stores s) ∧ w'.stores = w.stores) := by
  have hget := eval_getImpu s irs.defaultImpu w
  cases hcell : (w.stores s).impus.cells irs.defaultImpu with
  | none =>
    rw [ImpuStore.getImpu_of_none hcell] at hget
    have hset : Eval serve (setImpu s (.default (irs.createImpu 0 none (w.clock 0)))) w.tick .ok _ :=
      eval_setImpu_ok (CasTable.version_eq_zero.mpr hcell)
    have hfree : ¬ irs.BlockedAt (w.stores s) := by
      rintro ⟨-, D, expiry, hvalue⟩
      rw [CasTable.value?_eq_none.mpr hcell] at hvalue
      cases hvalue
    refine ⟨.ok, irs, _, hget.bind (((eval_timeNow w).bind (.ret _ _)).bind
      (hset.bind (.ret _ _))),
      .inl ⟨rfl, hfree, rfl, recordWrittenAt_setImpus irs s _ _ rfl rfl⟩⟩
  | some p =>
    obtain ⟨cas, blob⟩ := p
    have hversion := CasTable.version_of_cells hcell
    cases blob with
    | corrupt => exact absurd (CasTable.value?_of_cells hcell) hdec
    | decoded data =>
      rw [ImpuStore.getImpu_of_decoded hcell] at hget
      cases data with
      | default d =>
        -- The record is merged, and written with the version it was read with.
        have hmerge := eval_mergeFromStore_clock irs (d.fromData irs.defaultImpu cas s) w
        let irs' := irs.updateFromImpuFromStore (d.fromData irs.defaultImpu cas s) (w.clock 0)
        let w₁ := if irs.refreshed then w else w.tick
        let n := if irs.refreshed then 0 else 1
        obtain ⟨hw₁, hnow, hrest⟩ : w₁.stores = w.stores ∧ w₁.clock 0 = w.clock n ∧
            w₁.tick.clock = fun i => w.clock (i + (n + 1)) := by
          cases hr : irs.refreshed <;> simp only [w₁, n, hr] <;> exact ⟨rfl, rfl, rfl⟩
        have hcas : (w₁.tick.stores s).impus.version irs.defaultImpu = cas := by
          rw [World.tick_stores, hw₁]
          exact hversion
        have hset : Eval serve (setImpu s (.default (irs'.createImpu cas (some s) (w₁.clock 0))))
            w₁.tick .ok _ := eval_setImpu_ok hcas
        have hfree : ¬ irs.BlockedAt (w.stores s) := by
          rintro ⟨-, D, expiry, hvalue⟩
          rw [CasTable.value?_of_cells hcell] at hvalue
          cases hvalue
        have hwritten := recordWrittenAt_setImpus irs' s (v := w₁.tick) cas (some s) hw₁ hrest
        rw [← hnow] at hwritten
        exact ⟨.ok, irs', _, hget.bind (hmerge.bind (((eval_timeNow w₁).bind (.ret _ _)).bind
          (hset.bind (.ret _ _)))), .inl ⟨rfl, hfree, rfl, hwritten⟩⟩
      | associated D expiry =>
        cases hr : irs.refreshed with
        | true =>
          have hset : Eval serve (setImpu s (.default (irs.createImpu cas (some s) (w.clock 0))))
              w.tick .ok _ := eval_setImpu_ok hversion
          have hfree : ¬ irs.BlockedAt (w.stores s) := by
            rintro ⟨hfalse, -⟩
            rw [hr] at hfalse
            cases hfalse
          refine ⟨.ok, irs, _, hget.bind ?_,
            .inl ⟨rfl, hfree, rfl,
              recordWrittenAt_setImpus irs s (v := w.tick) cas (some s) rfl rfl⟩⟩
          simp only [ImpuData.fromData, hr, if_true]
          exact ((eval_timeNow w).bind (.ret _ _)).bind (hset.bind (.ret _ _))
        | false =>
          refine ⟨.error, irs, w, hget.bind ?_, .inr ⟨rfl, rfl, ⟨hr, D, expiry,
            CasTable.value?_of_cells hcell⟩, rfl⟩⟩
          simp only [ImpuData.fromData, hr, Bool.false_eq_true, if_false]
          exact .ret _ _

/-- How often the clock is read before the store's view of the default IMPU: an IRS that is from
this store is first tried as it is. -/
def Irs.rereadAt (irs : Irs) (s : StoreId) : Nat := if irs.store = some s then 1 else 0

/-- The first operation of a put for an existing IRS: `perform_irs_impu_action` with
`set_impu`, with its readings of the clock. An IRS that is current is written as it is, and
otherwise the store's view is merged into it first. -/
theorem eval_updateIrsImpu_clock (irs : Irs) (s : StoreId) {w : World}
    (hdec : irs.IsCurrent s w ∨ (w.stores s).impus.value? irs.defaultImpu ≠ some .corrupt) :
    ∃ status irs' w', Eval serve (updateIrsImpu irs s) w (status, irs') w' ∧
      (status = .ok ∧ (irs.IsCurrent s w ∧ irs' = irs ∧ RecordWrittenAt irs s 0 w w' ∨
          ¬ irs.IsCurrent s w ∧ ¬ irs.BlockedAt (w.stores s) ∧
            irs' = irs.merged s ((w.stores s).impus.cells irs.defaultImpu)
              (w.clock (irs.rereadAt s)) ∧
            RecordWrittenAt irs' s (irs.rereadAt s +
              irs.mergeReadings ((w.stores s).impus.cells irs.defaultImpu)) w w') ∨
        status = .error ∧ irs' = irs ∧ irs.BlockedAt (w.stores s) ∧ ¬ irs.IsCurrent s w ∧
          w'.stores = w.stores) := by
  -- The rest of the run once the store's view has to be read, from a world with the same stores.
  have hreread : ∀ st v, v.stores = w.stores → (v.clock = fun i => w.clock (i + irs.rereadAt s)) →
      ¬ irs.IsCurrent s w →
      ∃ status irs' w', Eval serve (Prog.loop (impuActionPass .setImpu s)
          (fun s => s.status.isContention) { status := st, irs := irs, impu := none }) v
          { status := status, irs := irs', impu := none } w' ∧
        (status = .ok ∧ (irs.IsCurrent s w ∧ irs' = irs ∧ RecordWrittenAt irs s 0 w w' ∨
            ¬ irs.IsCurrent s w ∧ ¬ irs.BlockedAt (w.stores s) ∧
              irs' = irs.merged s ((w.stores s).impus.cells irs.defaultImpu)
                (w.clock (irs.rereadAt s)) ∧
              RecordWrittenAt irs' s (irs.rereadAt s +
                irs.mergeReadings ((w.stores s).impus.cells irs.defaultImpu)) w w') ∨
          status = .error ∧ irs' = irs ∧ irs.BlockedAt (w.stores s) ∧ ¬ irs.IsCurrent s w ∧
            w'.stores = w.stores) := by
    intro st v hv hclock hcur
    have hdec' : (v.stores s).impus.value? irs.defaultImpu ≠ some .corrupt := by
      rw [hv]
      exact hdec.resolve_left hcur
    obtain ⟨status, irs', w', he, hcase⟩ := eval_rereadPass_setImpu irs s hdec'
    rw [hv] at hcase
    rcases hcase with ⟨rfl, hfree, hmerged, hwritten⟩ | ⟨rfl, rfl, hblocked, hw'⟩
    · have hnow : v.clock 0 = w.clock (irs.rereadAt s) := by
        simp only [hclock, Nat.zero_add]
      rw [hnow] at hmerged
      exact ⟨.ok, irs', w', he.loop_once rfl,
        .inl ⟨rfl, .inr ⟨hcur, hfree, hmerged, hwritten.later hv hclock⟩⟩⟩
    · exact ⟨.error, irs', w', he.loop_once rfl, .inr ⟨rfl, rfl, hblocked, hcur, hw'⟩⟩
  by_cases hstore : irs.store = some s
  · have hget : Eval serve (irs.getImpuForStore s) w
        (some (irs.createImpu irs.cas irs.store (w.clock 0))) w.tick := by
      unfold Irs.getImpuForStore
      rw [if_pos hstore]
      exact (eval_timeNow w).bind (.ret _ _)
    by_cases hcas : (w.stores s).impus.version irs.defaultImpu = irs.cas
    · have hset : Eval serve (setImpu s (.default (irs.createImpu irs.cas irs.store (w.clock 0))))
          w.tick .ok _ := eval_setImpu_ok hcas
      have hpass : Eval serve (impuActionPass .setImpu s
          { status := .ok, irs := irs
            impu := some (irs.createImpu irs.cas irs.store (w.clock 0)) }) w.tick
          { status := .ok, irs := irs, impu := none } _ := hset.bind (.ret _ _)
      exact ⟨.ok, irs, _, hget.bind ((hpass.loop_once rfl).bind (.ret _ _)),
        .inl ⟨rfl, .inl ⟨⟨hstore, hcas⟩, rfl, recordWrittenAt_setImpus irs s _ _ rfl rfl⟩⟩⟩
    · -- The optimistic write hits contention and changes nothing.
      have hne : (w.tick.stores s).impus.version
          (Impu.default (irs.createImpu irs.cas irs.store (w.clock 0))).impu ≠ irs.cas := hcas
      have hset := eval_setImpu s (.default (irs.createImpu irs.cas irs.store (w.clock 0))) w.tick
      rw [show (Impu.default (irs.createImpu irs.cas irs.store (w.clock 0))).cas = irs.cas from rfl,
        casImpu_of_ne hne] at hset
      have hpass : Eval serve (impuActionPass .setImpu s
          { status := .ok, irs := irs
            impu := some (irs.createImpu irs.cas irs.store (w.clock 0)) }) w.tick
          { status := .dataContention, irs := irs, impu := none } w.tick := hset.bind (.ret _ _)
      have hclock : w.tick.clock = fun i => w.clock (i + irs.rereadAt s) := by
        simp only [Irs.rereadAt, hstore, if_true]
        rfl
      obtain ⟨status, irs', w', he, hcase⟩ :=
        hreread .dataContention w.tick rfl hclock fun hcur => hcas hcur.2
      exact ⟨status, irs', w', hget.bind ((hpass.loop_again rfl he).bind (.ret _ _)), hcase⟩
  · have hget : Eval serve (irs.getImpuForStore s) w none w := by
      unfold Irs.getImpuForStore
      rw [if_neg hstore]
      exact .ret _ _
    have hclock : w.clock = fun i => w.clock (i + irs.rereadAt s) := by
      simp only [Irs.rereadAt, hstore, if_false]
      rfl
    obtain ⟨status, irs', w', he, hcase⟩ := hreread .ok w rfl hclock fun hcur => hstore hcur.1
    exact ⟨status, irs', w', hget.bind (he.bind (.ret _ _)), hcase⟩

/-- The same without the readings of the clock. -/
theorem eval_updateIrsImpu (irs : Irs) (s : StoreId) {w : World}
    (hdec : irs.IsCurrent s w ∨ (w.stores s).impus.value? irs.defaultImpu ≠ some .corrupt) :
    ∃ status irs' w', Eval serve (updateIrsImpu irs s) w (status, irs') w' ∧
      (status = .ok ∧ RecordWritten irs' s w w' ∧
          (irs.IsCurrent s w ∧ irs' = irs ∨ ¬ irs.IsCurrent s w ∧
            ¬ irs.BlockedAt (w.stores s) ∧
            ∃ now, irs' = irs.merged s ((w.stores s).impus.cells irs.defaultImpu) now) ∨
        status = .error ∧ irs' = irs ∧ irs.BlockedAt (w.stores s) ∧ ¬ irs.IsCurrent s w ∧
          w'.stores = w.stores) := by
  obtain ⟨status, irs', w', he, hcase⟩ := eval_updateIrsImpu_clock irs s hdec
  refine ⟨status, irs', w', he, ?_⟩
  rcases hcase with ⟨hok, hput⟩ | hfailed
  · left
    rcases hput with ⟨hcur, rfl, hwritten⟩ | ⟨hcur, hfree, hmerged, hwritten⟩
    · exact ⟨hok, hwritten.toRecordWritten, .inl ⟨hcur, rfl⟩⟩
    · exact ⟨hok, hwritten.toRecordWritten, .inr ⟨hcur, hfree, _, hmerged⟩⟩
  · exact .inr hfailed

/-- With a record that does not decode under its key, an IRS that is not current is never
written: the re-read finds nothing, and the write with the CAS value 0 hits contention. -/
theorem not_eval_updateIrsImpu (irs : Irs) (s : StoreId) {w : World}
    (hcur : ¬ irs.IsCurrent s w)
    (hcor : (w.stores s).impus.value? irs.defaultImpu = some .corrupt)
    (b : Status × Irs) (w' : World) : ¬ Eval serve (updateIrsImpu irs s) w b w' := by
  intro he
  obtain ⟨impu, v, hget, hrest⟩ := he.bind_inv
  obtain ⟨st, v', hloop, -⟩ := hrest.bind_inv
  -- Every pass leaves the record as it is and asks for another one.
  refine Eval.not_loop (fun st v => st.irs = irs ∧
    (v.stores s).impus.value? irs.defaultImpu = some .corrupt ∧
    ∀ impu, st.impu = some impu → impu.impu = irs.defaultImpu ∧
      (v.stores s).impus.version irs.defaultImpu ≠ impu.cas) ?_ ?_ st v' hloop
  · rintro st u st' u' ⟨rfl, hcor', himpu⟩ he'
    cases himpu' : st.impu with
    | some impu =>
      obtain ⟨hkey, hne⟩ := himpu impu himpu'
      have hne' : (u.stores s).impus.version (Impu.default impu).impu ≠ impu.cas := by
        show (u.stores s).impus.version impu.impu ≠ impu.cas
        rw [hkey]
        exact hne
      have hset := eval_setImpu s (.default impu) u
      rw [show (Impu.default impu).cas = impu.cas from rfl, casImpu_of_ne hne'] at hset
      have hpass : Eval serve (impuActionPass .setImpu s st) u
          { status := .dataContention, irs := st.irs, impu := none } u := by
        unfold impuActionPass
        rw [himpu']
        exact hset.bind (.ret _ _)
      obtain ⟨rfl, rfl⟩ := he'.det hpass
      exact ⟨rfl, rfl, hcor', nofun⟩
    | none =>
      obtain ⟨cas, hcell⟩ := CasTable.value?_eq_some.mp hcor'
      have hread := eval_getImpu s st.irs.defaultImpu u
      rw [ImpuStore.getImpu_of_corrupt hcell] at hread
      have hne : (u.tick.stores s).impus.version
          (Impu.default (st.irs.createImpu 0 none (u.clock 0))).impu ≠ 0 := by
        have hversion : (u.tick.stores s).impus.version
            (Impu.default (st.irs.createImpu 0 none (u.clock 0))).impu = cas :=
          CasTable.version_of_cells hcell
        have hpos := ((u.stores s).impus.fresh _ cas _ hcell).1
        rw [hversion]
        exact Nat.pos_iff_ne_zero.mp hpos
      have hset := eval_setImpu s (.default (st.irs.createImpu 0 none (u.clock 0))) u.tick
      rw [show (Impu.default (st.irs.createImpu 0 none (u.clock 0))).cas = 0 from rfl,
        casImpu_of_ne hne] at hset
      have hpass : Eval serve (impuActionPass .setImpu s st) u
          { status := .dataContention, irs := st.irs, impu := none } u.tick := by
        unfold impuActionPass
        rw [himpu']
        exact hread.bind (((eval_timeNow u).bind (.ret _ _)).bind (hset.bind (.ret _ _)))
      obtain ⟨rfl, rfl⟩ := he'.det hpass
      exact ⟨rfl, rfl, hcor', nofun⟩
  · unfold Irs.getImpuForStore at hget
    by_cases hstore : irs.store = some s
    · rw [if_pos hstore] at hget
      obtain ⟨rfl, rfl⟩ := hget.det ((eval_timeNow w).bind (.ret _ _))
      refine ⟨rfl, hcor, fun impu himpu => ?_⟩
      cases himpu
      exact ⟨rfl, fun hcas => hcur ⟨hstore, hcas⟩⟩
    · rw [if_neg hstore] at hget
      obtain ⟨rfl, rfl⟩ := Eval.ret_iff.mp hget
      exact ⟨rfl, hcor, nofun⟩

/-- A delete of the record that `create_impu` builds. -/
theorem eval_apply_deleteImpu (irs : Irs) (s : StoreId) (cas : Nat) (store : Option StoreId)
    (now : Int) (w : World) :
    Eval serve (IrsImpuAction.deleteImpu.apply s (irs.createImpu cas store now)) w .ok
      (w.setImpus s ((w.stores s).impus.erase irs.defaultImpu)) :=
  eval_deleteImpu s _ w

/-- The effect of `delete_irs_impu` on the `impu` table: the key `D` is gone, or it holds
bytes that do not decode and the IRS is from another store. -/
structure RecordDeleted (irs : Irs) (s : StoreId) (w w' : World) : Prop where
  only : ImpusOnly s w w'
  gone : (w'.stores s).impus.cells irs.defaultImpu = none ∨
    irs.store ≠ some s ∧ (w.stores s).impus.value? irs.defaultImpu = some .corrupt ∧
      (w'.stores s).impus.cells irs.defaultImpu = (w.stores s).impus.cells irs.defaultImpu
  others : ∀ k, k ≠ irs.defaultImpu →
    (w'.stores s).impus.cells k = (w.stores s).impus.cells k

theorem recordDeleted_setImpus (irs : Irs) (s : StoreId) {w v : World}
    (hv : v.stores = w.stores) :
    RecordDeleted irs s w (v.setImpus s ((v.stores s).impus.erase irs.defaultImpu)) where
  only := by
    have honly : ImpusOnly s w v := ⟨fun s' _ => by rw [hv], by rw [hv]⟩
    exact honly.trans (.setImpus s v _)
  gone := by
    left
    rw [World.setImpus_stores_self]
    exact CasTable.erase_cells_self _ _
  others k hk := by
    rw [World.setImpus_stores_self]
    show ((v.stores s).impus.erase _).cells k = _
    rw [CasTable.erase_cells_ne _ hk, hv]

/-- `delete_irs_impu` always ends with `OK`. The IRS takes in the store's view of the
record when it is from another store. -/
theorem eval_deleteIrsImpu (irs : Irs) (s : StoreId) (w : World) :
    ∃ irs' w', Eval serve (deleteIrsImpu irs s) w (.ok, irs') w' ∧ RecordDeleted irs s w w' ∧
      (irs.store = some s ∧ irs' = irs.markAsRefreshed ∨ irs.store ≠ some s ∧ ∃ now,
        irs' = irs.markAsRefreshed.merged s ((w.stores s).impus.cells irs.defaultImpu) now) := by
  by_cases hstore : irs.store = some s
  · have hget : Eval serve (irs.markAsRefreshed.getImpuForStore s) w
        (some (irs.markAsRefreshed.createImpu irs.cas irs.store (w.clock 0))) w.tick := by
      unfold Irs.getImpuForStore
      rw [if_pos (show irs.markAsRefreshed.store = some s from hstore)]
      exact (eval_timeNow w).bind (.ret _ _)
    have hpass : Eval serve (impuActionPass .deleteImpu s
        { status := .ok, irs := irs.markAsRefreshed
          impu := some (irs.markAsRefreshed.createImpu irs.cas irs.store (w.clock 0)) }) w.tick
        { status := .ok, irs := irs.markAsRefreshed, impu := none } _ :=
      (eval_apply_deleteImpu _ s _ _ _ _).bind (.ret _ _)
    exact ⟨_, _, hget.bind ((hpass.loop_once rfl).bind (.ret _ _)),
      recordDeleted_setImpus irs s rfl, .inl ⟨hstore, rfl⟩⟩
  · have hget : Eval serve (irs.markAsRefreshed.getImpuForStore s) w none w := by
      unfold Irs.getImpuForStore
      rw [if_neg (show ¬ irs.markAsRefreshed.store = some s from hstore)]
      exact .ret _ _
    -- One pass, by what the re-read finds.
    suffices hpass : ∃ irs' w', Eval serve (rereadPass .deleteImpu s irs.markAsRefreshed) w
        { status := .ok, irs := irs', impu := none } w' ∧ RecordDeleted irs s w w' ∧ ∃ now,
        irs' = irs.markAsRefreshed.merged s ((w.stores s).impus.cells irs.defaultImpu) now by
      obtain ⟨irs', w', he, hdeleted, hirs'⟩ := hpass
      have hloop : Eval serve (Prog.loop (impuActionPass .deleteImpu s)
          (fun s => s.status.isContention)
          { status := .ok, irs := irs.markAsRefreshed, impu := none }) w _ w' := he.loop_once rfl
      exact ⟨irs', w', hget.bind (hloop.bind (.ret _ _)), hdeleted, .inr ⟨hstore, hirs'⟩⟩
    have hread := eval_getImpu s irs.defaultImpu w
    cases hcell : (w.stores s).impus.cells irs.defaultImpu with
    | none =>
      rw [ImpuStore.getImpu_of_none hcell] at hread
      exact ⟨_, w, hread.bind (.ret _ _), ⟨.refl s w, .inl hcell, fun _ _ => rfl⟩, 0, rfl⟩
    | some p =>
      obtain ⟨cas, blob⟩ := p
      cases blob with
      | corrupt =>
        rw [ImpuStore.getImpu_of_corrupt hcell] at hread
        exact ⟨_, w, hread.bind (.ret _ _), ⟨.refl s w,
          .inr ⟨hstore, CasTable.value?_of_cells hcell, rfl⟩, fun _ _ => rfl⟩, 0, rfl⟩
      | decoded data =>
        rw [ImpuStore.getImpu_of_decoded hcell] at hread
        cases data with
        | default d =>
          obtain ⟨now, w₁, hmerge, hw₁⟩ := eval_mergeFromStore irs.markAsRefreshed
            (d.fromData irs.defaultImpu cas s) w
          exact ⟨_, _, hread.bind (hmerge.bind (((eval_timeNow w₁).bind (.ret _ _)).bind
            ((eval_apply_deleteImpu _ s _ _ _ _).bind (.ret _ _)))),
            recordDeleted_setImpus irs s hw₁, now, rfl⟩
        | associated D expiry =>
          exact ⟨_, _, hread.bind (((eval_timeNow w).bind (.ret _ _)).bind
            ((eval_apply_deleteImpu irs.markAsRefreshed s _ _ _ _).bind (.ret _ _))),
            recordDeleted_setImpus irs s rfl, 0, rfl⟩

/-! ### Whole puts and deletes -/

/-- The first operation of a put for a new IRS. -/
theorem eval_createIrsImpu (irs : Irs) (s : StoreId) (w : World) :
    ∃ w', Eval serve (createIrsImpu irs s) w .ok w' ∧
      (RecordWrittenAt irs s 0 w w' ∧ (irs.registrationState = .registered ∨
          (w.stores s).impus.cells irs.defaultImpu = none) ∨
        irs.registrationState ≠ .registered ∧
          (w.stores s).impus.cells irs.defaultImpu ≠ none ∧ w'.stores = w.stores) := by
  let impu := irs.createImpu 0 none (w.clock 0)
  have hget : Eval serve irs.getImpu w impu w.tick := (eval_timeNow w).bind (.ret _ _)
  by_cases hreg : irs.registrationState = .registered
  · refine ⟨_, hget.bind ?_,
      .inl ⟨recordWrittenAt_setImpus irs s (v := w.tick) 0 none rfl rfl, .inl hreg⟩⟩
    rw [if_pos (show impu.registrationState = .registered from hreg)]
    exact eval_setImpuWithoutCas s _ _
  · have hadd := eval_addImpu s (.default impu) w.tick
    by_cases hcell : (w.stores s).impus.cells irs.defaultImpu = none
    · rw [casImpu_of_version (show (w.tick.stores s).impus.version (Impu.default impu).impu = 0
        from CasTable.version_eq_zero.mpr hcell)] at hadd
      refine ⟨_, hget.bind ?_,
        .inl ⟨recordWrittenAt_setImpus irs s (v := w.tick) 0 none rfl rfl, .inr hcell⟩⟩
      rw [if_neg (show ¬ impu.registrationState = .registered from hreg)]
      exact hadd.bind (.ret _ _)
    · rw [casImpu_of_ne (show (w.tick.stores s).impus.version (Impu.default impu).impu ≠ 0
        from fun h => hcell (CasTable.version_eq_zero.mp h))] at hadd
      refine ⟨w.tick, hget.bind ?_, .inr ⟨hreg, hcell, rfl⟩⟩
      rw [if_neg (show ¬ impu.registrationState = .registered from hreg)]
      exact hadd.bind (.ret _ _)

/-- The effect of the second and third operation of a put or a delete, from the world `w₁`
that the first one left: each table changes as the IRS says, and no other store does. -/
structure Updated (irs : Irs) (s : StoreId) (w₁ w' : World) : Prop where
  stores : ∀ s', s' ≠ s → w'.stores s' = w₁.stores s'
  impus : ∀ impu, AssociatedEffect irs impu ((w₁.stores s).impus.cells impu)
    ((w'.stores s).impus.cells impu)
  mappings : ∀ impi, MappingEffect irs impi ((w₁.stores s).mappings.cells impi)
    ((w'.stores s).mappings.cells impi)

/-- The second and third operation of a put. -/
theorem eval_putIrsAction {irs irs' : Irs} {s : StoreId} {w w₁ : World}
    (hfirst : Eval serve (putIrsImpu irs s) w (.ok, irs') w₁)
    (hdec : RefreshDecodable irs' s w₁) :
    ∃ w', Eval serve (putIrsAction irs s) w (.ok, irs') w' ∧ Updated irs' s w₁ w' := by
  obtain ⟨w₂, he₂, honly₂, hassoc⟩ := eval_updateIrsAssociatedImpus irs' s w₁
  have hdec₂ : RefreshDecodable irs' s w₂ := by
    intro hr impi hst
    rw [honly₂.mappings]
    exact hdec hr impi hst
  obtain ⟨status, w₃, he₃, -, honly₃, hmap⟩ := eval_updateIrsImpiMappings irs' s hdec₂
  refine ⟨w₃, hfirst.bind (he₂.bind (he₃.bind (.ret _ _))), ?_, ?_, ?_⟩
  · exact fun s' hs' => (honly₃.stores s' hs').trans (honly₂.stores s' hs')
  · intro impu
    rw [honly₃.impus]
    exact hassoc impu
  · intro impi
    have heffect := hmap impi
    rw [honly₂.mappings] at heffect
    exact heffect

/-- A put whose first operation fails does nothing more. -/
theorem eval_putIrsAction_of_ne {irs irs' : Irs} {s : StoreId} {w w₁ : World} {status : Status}
    (hfirst : Eval serve (putIrsImpu irs s) w (status, irs') w₁) (hne : status ≠ .ok) :
    Eval serve (putIrsAction irs s) w (status, irs') w₁ := by
  refine hfirst.bind ?_
  rw [if_neg (show ¬ (status, irs').1 = .ok from hne)]
  exact .ret _ _

/-- A whole delete on one store: it ends with `OK`, and everything that the IRS tracks
after the store's view is merged in is removed. -/
theorem eval_deleteIrsAction (irs : Irs) (s : StoreId) (w : World) :
    ∃ irs' w₁ w', Eval serve (deleteIrsAction irs s) w
        (.ok, irs'.deleteAssocImpus.deleteImpis) w' ∧
      RecordDeleted irs s w w₁ ∧
      (irs.store = some s ∧ irs' = irs.markAsRefreshed ∨ irs.store ≠ some s ∧ ∃ now,
        irs' = irs.markAsRefreshed.merged s ((w.stores s).impus.cells irs.defaultImpu) now) ∧
      Updated irs'.deleteAssocImpus.deleteImpis s w₁ w' := by
  obtain ⟨irs', w₁, he₁, hdeleted, hirs'⟩ := eval_deleteIrsImpu irs s w
  obtain ⟨w₂, he₂, honly₂, hassoc⟩ := eval_updateIrsAssociatedImpus irs'.deleteAssocImpus s w₁
  -- Nothing that is unchanged or added is left, so no refresh and no addition runs.
  have htracked : ∀ {impi : String} {st : State}, st ≠ .deleted →
      irs'.deleteAssocImpus.deleteImpis.impis[impi]? ≠ some st := by
    intro impi st hne hst
    have hmem := Data.mem_elementsInState.mpr hst
    rw [show irs'.deleteAssocImpus.deleteImpis.impis = irs'.impis.deleteTracked from rfl,
      Data.elementsInState_deleteTracked hne] at hmem
    cases hmem
  have hdec₂ : RefreshDecodable irs'.deleteAssocImpus.deleteImpis s w₂ :=
    fun _ impi hst => absurd hst (htracked (by decide))
  obtain ⟨status, w₃, he₃, hok, honly₃, hmap⟩ := eval_updateIrsImpiMappings _ s hdec₂
  have hstatus : status = .ok :=
    hok fun impi himpi => absurd (Data.mem_elementsInState.mp himpi) (htracked (by decide))
  subst hstatus
  refine ⟨irs', w₁, w₃, he₁.bind (he₂.bind (he₃.bind (.ret _ _))), hdeleted, hirs', ?_, ?_, ?_⟩
  · exact fun s' hs' => (honly₃.stores s' hs').trans (honly₂.stores s' hs')
  · intro impu
    rw [honly₃.impus]
    exact hassoc impu
  · intro impi
    have heffect := hmap impi
    rw [honly₂.mappings] at heffect
    exact heffect

/-- `perform` with no remote store is the action on the local one. -/
theorem eval_perform_local {σ : Type} {cache : MemcachedCache} (hremote : cache.remoteStores = [])
    {action : StoreId → σ → CacheProg (Status × σ)} {st : σ} {r : Status × σ} {w w' : World}
    (h : Eval serve (action cache.localStore st) w r w') :
    Eval serve (cache.perform action st) w r w' := by
  refine h.bind ?_
  rw [hremote]
  split
  · rename_i hok
    rw [show r = (.ok, r.2) from Prod.ext hok rfl]
    exact (eval_progressCb w').bind (.ret _ _)
  · exact .ret _ _

/-! ### Reading the effects -/

namespace Updated

variable {irs : Irs} {s : StoreId} {w₁ w' : World}

/-- A key that the IRS does not list keeps its record, unless it is an associated IMPU of
the same default IMPU. -/
theorem cells_of_notMem (hu : Updated irs s w₁ w') {k : String}
    (hk : k ∉ irs.getAssociatedImpus) (hp : ¬ (w₁.stores s).PointsAt k irs.defaultImpu) :
    (w'.stores s).impus.cells k = (w₁.stores s).impus.cells k := by
  have heffect := hu.impus k
  have hnot := mt Data.mem_present.mpr hk
  unfold AssociatedEffect at heffect
  cases hst : irs.associatedImpus[k]? with
  | none =>
    rw [hst] at heffect
    exact heffect
  | some st =>
    cases st with
    | unchanged => exact absurd (.inl hst) hnot
    | added => exact absurd (.inr hst) hnot
    | deleted =>
      rw [hst] at heffect
      unfold AssociatedRemoved at heffect
      dsimp only at heffect
      split at heffect
      · rename_i cas D' expiry hcell
        split at heffect
        · rename_i hD
          subst hD
          exact absurd ⟨expiry, CasTable.value?_of_cells hcell⟩ hp
        · exact heffect
      · exact heffect

/-- An added associated IMPU, or any one of a refreshed IRS, points at the default IMPU. -/
theorem pointsAt (hu : Updated irs s w₁ w') {x : String}
    (hx : irs.associatedImpus[x]? = some .added ∨
      irs.associatedImpus[x]? = some .unchanged ∧ irs.refreshed = true) :
    (w'.stores s).PointsAt x irs.defaultImpu := by
  have heffect := hu.impus x
  unfold AssociatedEffect at heffect
  rcases hx with hst | ⟨hst, hr⟩
  · rw [hst] at heffect
    obtain ⟨cas, expiry, hcell⟩ := heffect
    exact ⟨expiry, CasTable.value?_of_cells hcell⟩
  · rw [hst] at heffect
    simp only [hr, if_true] at heffect
    obtain ⟨cas, expiry, hcell⟩ := heffect
    exact ⟨expiry, CasTable.value?_of_cells hcell⟩

/-- A key that the IRS does not track keeps its record. -/
theorem cells_of_untracked (hu : Updated irs s w₁ w') {k : String}
    (hk : irs.associatedImpus[k]? = none) :
    (w'.stores s).impus.cells k = (w₁.stores s).impus.cells k := by
  have heffect := hu.impus k
  unfold AssociatedEffect at heffect
  rw [hk] at heffect
  exact heffect

/-- A `DefaultImpu` record that is there afterwards was there before. -/
theorem cells_of_default (hu : Updated irs s w₁ w') {k : String} {cas : Nat}
    {d : DefaultImpuData}
    (hd : (w'.stores s).impus.cells k = some (cas, .decoded (.default d))) :
    (w₁.stores s).impus.cells k = some (cas, .decoded (.default d)) := by
  have heffect := hu.impus k
  rw [hd] at heffect
  -- What is written here is an associated IMPU, never a default one.
  have hwritten : ¬ AssociatedWritten irs.defaultImpu (some (cas, .decoded (.default d))) := by
    rintro ⟨cas', expiry, h⟩
    cases h
  unfold AssociatedEffect at heffect
  cases hst : irs.associatedImpus[k]? with
  | none =>
    rw [hst] at heffect
    exact heffect.symm
  | some st =>
    rw [hst] at heffect
    cases st with
    | added => exact absurd heffect hwritten
    | unchanged =>
      dsimp only at heffect
      split at heffect
      · exact absurd heffect hwritten
      · exact heffect.symm
    | deleted =>
      unfold AssociatedRemoved at heffect
      dsimp only at heffect
      split at heffect
      · split at heffect
        · cases heffect
        · exact heffect.symm
      · exact heffect.symm

/-- An associated IMPU of another default IMPU keeps its record, unless the IRS lists it. -/
theorem pointsAt_of_notMem (hu : Updated irs s w₁ w') {x E : String}
    (hp : (w₁.stores s).PointsAt x E) (hE : E ≠ irs.defaultImpu)
    (hx : x ∉ irs.getAssociatedImpus) : (w'.stores s).PointsAt x E := by
  obtain ⟨expiry, hvalue⟩ := hp
  have hne : ¬ (w₁.stores s).PointsAt x irs.defaultImpu := by
    rintro ⟨expiry', hvalue'⟩
    rw [hvalue] at hvalue'
    cases hvalue'
    exact hE rfl
  refine ⟨expiry, ?_⟩
  rw [CasTable.value?, hu.cells_of_notMem hx hne]
  exact hvalue

/-- Bytes that do not decode were there before. -/
theorem impus_of_corrupt (hu : Updated irs s w₁ w') {key : String} {cas : Nat}
    (hcell : (w'.stores s).impus.cells key = some (cas, .corrupt)) :
    (w₁.stores s).impus.cells key = some (cas, .corrupt) := by
  have heffect := hu.impus key
  rw [hcell] at heffect
  have hwritten : ¬ AssociatedWritten irs.defaultImpu (some (cas, .corrupt)) := by
    rintro ⟨cas', expiry, h⟩
    cases h
  unfold AssociatedEffect AssociatedRemoved at heffect
  split at heffect
  · split at heffect
    · split at heffect
      · cases heffect
      · exact heffect.symm
    · exact heffect.symm
  · exact absurd heffect hwritten
  · split at heffect
    · exact absurd heffect hwritten
    · exact heffect.symm
  · exact heffect.symm

/-- The same for the mappings. -/
theorem mappings_of_corrupt (hu : Updated irs s w₁ w') {key : String} {cas : Nat}
    (hcell : (w'.stores s).mappings.cells key = some (cas, .corrupt)) :
    (w₁.stores s).mappings.cells key = some (cas, .corrupt) := by
  have heffect := hu.mappings key
  rw [hcell] at heffect
  have hadded : MappingAdded irs.defaultImpu ((w₁.stores s).mappings.cells key)
      (some (cas, .corrupt)) → (w₁.stores s).mappings.cells key = some (cas, .corrupt) := by
    intro h
    unfold MappingAdded at h
    split at h
    · obtain ⟨cas', expiry, h⟩ := h
      cases h
    · obtain ⟨cas', expiry, h⟩ := h
      cases h
    · exact h.symm
  -- No effect writes a blob that does not decode, so the cell is as it was.
  unfold MappingEffect at heffect
  split at heffect
  · unfold MappingRemoved at heffect
    split at heffect
    · split at heffect
      · split at heffect
        · cases heffect
        · obtain ⟨cas', h⟩ := heffect
          cases h
      · exact heffect.symm
    · exact heffect.symm
  · exact hadded heffect
  · split at heffect
    · exact hadded heffect
    · exact heffect.symm
  · exact heffect.symm

/-- No operation leaves bytes that do not decode. -/
theorem decodable (hu : Updated irs s w₁ w') (hdec : (w₁.stores s).Decodable) :
    (w'.stores s).Decodable := by
  constructor
  · intro key hcor
    obtain ⟨cas, hcell⟩ := CasTable.value?_eq_some.mp hcor
    exact hdec.impus key (CasTable.value?_of_cells (hu.impus_of_corrupt hcell))
  · intro key hcor
    obtain ⟨cas, hcell⟩ := CasTable.value?_eq_some.mp hcor
    exact hdec.mappings key (CasTable.value?_of_cells (hu.mappings_of_corrupt hcell))

/-- An unchanged associated IMPU of an IRS that is not refreshed keeps its record. -/
theorem cells_of_unchanged (hu : Updated irs s w₁ w') {x : String}
    (hx : irs.associatedImpus[x]? = some .unchanged) (hr : irs.refreshed = false) :
    (w'.stores s).impus.cells x = (w₁.stores s).impus.cells x := by
  have heffect := hu.impus x
  unfold AssociatedEffect at heffect
  rw [hx] at heffect
  simpa [hr] using heffect

/-- The other default IMPUs of a mapping stay in it, and this one stays unless its IMPI is
deleted. -/
theorem maps_of_maps (hu : Updated irs s w₁ w') {impi D : String}
    (hm : (w₁.stores s).Maps impi D)
    (hD : D ≠ irs.defaultImpu ∨ irs.impis[impi]? ≠ some .deleted) :
    (w'.stores s).Maps impi D := by
  obtain ⟨m, hvalue, hmem⟩ := hm
  obtain ⟨cas, hcell⟩ := CasTable.value?_eq_some.mp hvalue
  have heffect := hu.mappings impi
  rw [hcell] at heffect
  -- The two effects that rewrite the mapping.
  have hadded : MappingAdded irs.defaultImpu (some (cas, .decoded m))
      ((w'.stores s).mappings.cells impi) → (w'.stores s).Maps impi D := by
    rintro ⟨cas', expiry, hcell'⟩
    refine ⟨_, CasTable.value?_of_cells hcell', ?_⟩
    dsimp only
    split
    · exact hmem
    · exact List.mem_append_left _ hmem
  have hsame : (w'.stores s).mappings.cells impi = some (cas, .decoded m) →
      (w'.stores s).Maps impi D :=
    fun hcell' => ⟨m, CasTable.value?_of_cells hcell', hmem⟩
  unfold MappingEffect at heffect
  cases hst : irs.impis[impi]? with
  | none =>
    rw [hst] at heffect
    exact hsame heffect
  | some st =>
    rw [hst] at heffect
    cases st with
    | added => exact hadded heffect
    | unchanged =>
      dsimp only at heffect
      split at heffect
      · exact hadded heffect
      · exact hsame heffect
    | deleted =>
      have hne : D ≠ irs.defaultImpu := hD.resolve_right (fun hnot => hnot hst)
      have hkept : D ∈ m.defaultImpus.filter (· ≠ irs.defaultImpu) :=
        List.mem_filter.mpr ⟨hmem, by simpa using hne⟩
      simp only [MappingRemoved] at heffect
      split at heffect
      · rw [if_neg (List.ne_nil_of_mem hkept)] at heffect
        obtain ⟨cas', hcell'⟩ := heffect
        exact ⟨_, CasTable.value?_of_cells hcell', hkept⟩
      · exact hsame heffect

/-- The mapping of an added IMPI, or of any IMPI of a refreshed IRS, has the default IMPU. -/
theorem maps (hu : Updated irs s w₁ w') {impi : String}
    (hx : irs.impis[impi]? = some .added ∨
      irs.impis[impi]? = some .unchanged ∧ irs.refreshed = true)
    (hdec : (w₁.stores s).mappings.value? impi ≠ some .corrupt) :
    (w'.stores s).Maps impi irs.defaultImpu := by
  have heffect : MappingAdded irs.defaultImpu ((w₁.stores s).mappings.cells impi)
      ((w'.stores s).mappings.cells impi) := by
    have heffect := hu.mappings impi
    unfold MappingEffect at heffect
    rcases hx with hst | ⟨hst, hr⟩
    · rw [hst] at heffect
      exact heffect
    · rw [hst] at heffect
      simpa [hr] using heffect
  cases hcell : (w₁.stores s).mappings.cells impi with
  | none =>
    rw [hcell] at heffect
    obtain ⟨cas, expiry, hcell'⟩ := heffect
    exact ⟨_, CasTable.value?_of_cells hcell', List.mem_singleton.mpr rfl⟩
  | some p =>
    obtain ⟨cas, blob⟩ := p
    cases blob with
    | corrupt => exact absurd (CasTable.value?_of_cells hcell) hdec
    | decoded m =>
      rw [hcell] at heffect
      obtain ⟨cas', expiry, hcell'⟩ := heffect
      refine ⟨_, CasTable.value?_of_cells hcell', ?_⟩
      dsimp only
      split
      · assumption
      · exact List.mem_append_right _ (List.mem_singleton.mpr rfl)

end Updated

end Homestead

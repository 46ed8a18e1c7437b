import Homestead.Lib.Halts
import Homestead.Proofs.Calls
import Homestead.Proofs.SoloGet

/-!
# `Homestead.Proofs.RetriesEnd`: the retry loops and the end of contention

`update_irs_impi_mappings`, `update_irs_associated_impus` and `perform_irs_impu_action`
among other clients that make finitely many writes on the store. A compare-and-set that
follows a read fails only when another client wrote in between, so a loop whose every pass
reads first goes round at most once for each such write (`Moves`).

Two loops do not read first, or do not use what they have read. The loop that removes a
mapping keeps the status of the last attempt when the next read finds nothing to remove. The
loop that adds a mapping keeps the CAS value of the last mapping when the next read finds
none. `RereadsFind` is the condition that these reads are not made.

* `halts_removeMapping`, `halts_refreshMapping` and `halts_addMapping`: one lemma for each
  loop over a mapping.
* `halts_performIrsImpuAction`: the loop on the record of the default IMPU.
* `retries_end` is the result for every interleaving.
* `retries_not_ending` has one run for each of the two defects.
-/

set_option autoImplicit false

namespace Homestead

open CacheProg

/-! ### What the others do -/

/-- The call writes or deletes on the store `s`. -/
def Call.writesTo (s : StoreId) : Call → Bool
  | .setImpu s' _ => decide (s' = s)
  | .setImpuWithoutCas s' _ => decide (s' = s)
  | .addImpu s' _ => decide (s' = s)
  | .deleteImpu s' _ => decide (s' = s)
  | .setImpiMapping s' _ => decide (s' = s)
  | .deleteImpiMapping s' _ => decide (s' = s)
  | _ => false

/-- A call that does not write on the store leaves it as it is. -/
theorem serve_stores_of_not_writesTo {o : Call} {s : StoreId} (w : World)
    (h : o.writesTo s = false) : (serve o w).2.stores s = w.stores s := by
  have hne : ∀ s', decide (s' = s) = false → s ≠ s' := fun s' h => (of_decide_eq_false h) ∘ Eq.symm
  cases o with
  | getImpu s' impu => rfl
  | getImpiMapping s' impi => rfl
  | time => rfl
  | progressCb => rfl
  | setImpu s' impu => exact casImpu_stores_ne (hne s' h)
  | setImpuWithoutCas s' impu => exact w.setImpus_stores_ne _ (hne s' h)
  | addImpu s' impu => exact casImpu_stores_ne (hne s' h)
  | deleteImpu s' impu => exact w.setImpus_stores_ne _ (hne s' h)
  | setImpiMapping s' m => exact casMapping_stores_ne (hne s' h)
  | deleteImpiMapping s' m => exact w.setMappings_stores_ne _ (hne s' h)

theorem decodable_setImpus {w : World} {s s' : StoreId} {t : CasTable String (Blob ImpuData)}
    (hdec : (w.stores s).Decodable)
    (ht : ∀ key, (w.stores s').impus.value? key ≠ some .corrupt → t.value? key ≠ some .corrupt) :
    ((w.setImpus s' t).stores s).Decodable := by
  by_cases hs : s = s'
  · subst hs
    rw [World.setImpus_stores_self]
    exact ⟨fun key => ht key (hdec.impus key), hdec.mappings⟩
  · rw [w.setImpus_stores_ne t hs]
    exact hdec

theorem decodable_setMappings {w : World} {s s' : StoreId}
    {t : CasTable String (Blob MappingData)} (hdec : (w.stores s).Decodable)
    (ht : ∀ key, (w.stores s').mappings.value? key ≠ some .corrupt →
      t.value? key ≠ some .corrupt) : ((w.setMappings s' t).stores s).Decodable := by
  by_cases hs : s = s'
  · subst hs
    rw [World.setMappings_stores_self]
    exact ⟨hdec.impus, fun key => ht key (hdec.mappings key)⟩
  · rw [w.setMappings_stores_ne t hs]
    exact hdec

/-- A write of data that decodes, and a delete, leave nothing that does not decode. -/
theorem put_not_corrupt {V : Type} (t : CasTable String (Blob V)) (k : String) (v : V)
    (key : String) (h : t.value? key ≠ some .corrupt) :
    (t.put k (.decoded v)).value? key ≠ some .corrupt := by
  rw [CasTable.put_value?]
  split
  · nofun
  · exact h

theorem erase_not_corrupt {V : Type} (t : CasTable String (Blob V)) (k key : String)
    (h : t.value? key ≠ some .corrupt) : (t.erase k).value? key ≠ some .corrupt := by
  rw [CasTable.erase_value?]
  split
  · nofun
  · exact h

/-- Every call leaves a store whose contents decode in that state. -/
theorem decodable_serve {w : World} {s : StoreId} (o : Call) (hdec : (w.stores s).Decodable) :
    ((serve o w).2.stores s).Decodable := by
  have hcas : ∀ s' impu cas, ((w.casImpu s' impu cas).2.stores s).Decodable := by
    intro s' impu cas
    rcases casImpu_cases w s' impu cas with ⟨-, heq⟩ | ⟨-, heq⟩
    · rw [heq]
      exact decodable_setImpus hdec (put_not_corrupt _ _ _)
    · rw [heq]
      exact hdec
  cases o with
  | getImpu s' impu => exact hdec
  | getImpiMapping s' impi => exact hdec
  | time => exact hdec
  | progressCb => exact hdec
  | setImpu s' impu => exact hcas s' impu impu.cas
  | setImpuWithoutCas s' impu => exact decodable_setImpus hdec (put_not_corrupt _ _ _)
  | addImpu s' impu => exact hcas s' impu 0
  | deleteImpu s' impu => exact decodable_setImpus hdec (erase_not_corrupt _ _)
  | setImpiMapping s' m =>
    show ((w.casMapping s' m).2.stores s).Decodable
    rcases casMapping_cases w s' m with ⟨-, heq⟩ | ⟨-, heq⟩
    · rw [heq]
      exact decodable_setMappings hdec (put_not_corrupt _ _ _)
    · rw [heq]
      exact hdec
  | deleteImpiMapping s' m => exact decodable_setMappings hdec (erase_not_corrupt _ _)

/-- From `w` with `b` writes of the others left to `w'` with `b'`: the others have written, or
the store is the same. Its contents decode. -/
structure Moves (s : StoreId) (b : Nat) (w : World) (b' : Nat) (w' : World) : Prop where
  decodable : (w'.stores s).Decodable
  quiet : b' < b ∨ b' = b ∧ w'.stores s = w.stores s

namespace Moves

variable {s : StoreId} {b b₁ b₂ : Nat} {w w₁ w₂ : World}

theorem le (h : Moves s b w b₁ w₁) : b₁ ≤ b := by
  rcases h.quiet with hlt | ⟨heq, -⟩ <;> omega

theorem trans (h₁ : Moves s b w b₁ w₁) (h₂ : Moves s b₁ w₁ b₂ w₂) : Moves s b w b₂ w₂ := by
  refine ⟨h₂.decodable, ?_⟩
  rcases h₁.quiet with hlt | ⟨rfl, hst⟩
  · exact .inl (Nat.lt_of_le_of_lt h₂.le hlt)
  · rcases h₂.quiet with hlt | ⟨rfl, hst₂⟩
    · exact .inl hlt
    · exact .inr ⟨rfl, hst₂.trans hst⟩

/-- The calls of the others. -/
theorem of_interferes (h : Interferes serve (Call.writesTo s) b w b₁ w₁)
    (hdec : (w.stores s).Decodable) : Moves s b w b₁ w₁ := by
  obtain ⟨os, rfl, hcount⟩ := h
  induction os generalizing w b with
  | nil =>
    obtain rfl : b₁ = b := by simpa using hcount
    exact ⟨hdec, .inr ⟨rfl, rfl⟩⟩
  | cons o os ih =>
    have hdec₁ := decodable_serve o hdec
    cases hw : o.writesTo s with
    | true =>
      rw [List.countP_cons_of_pos hw] at hcount
      have hrest : Moves s (b - 1) (serve o w).2 b₁ (Handler.after serve os (serve o w).2) :=
        ih hdec₁ (by omega)
      have hle := hrest.le
      exact ⟨hrest.decodable, .inl (by omega)⟩
    | false =>
      rw [List.countP_cons_of_neg (by simp [hw])] at hcount
      have hrest : Moves s b (serve o w).2 b₁ (Handler.after serve os (serve o w).2) :=
        ih hdec₁ hcount
      refine ⟨hrest.decodable, hrest.quiet.imp_right fun ⟨heq, hst⟩ => ⟨heq, ?_⟩⟩
      exact hst.trans (serve_stores_of_not_writesTo w hw)

/-- A call of the client that leaves the world as it is. -/
theorem of_eq (h : Moves s b w b₁ w₁) (hw : w₂.stores = w₁.stores) : Moves s b w b₁ w₂ := by
  refine ⟨?_, ?_⟩
  · rw [hw]
    exact h.decodable
  · rw [hw]
    exact h.quiet

end Moves

/-! ### The condition -/

/-- The mapping of the last call, when that call was a write that met contention. -/
def contendedSet (hs : History) : Option ImpiMapping :=
  match hs.getLast? with
  | some ⟨.setImpiMapping _ m, r⟩ => if Status.isContention r then some m else none
  | _ => none

/-- The condition at a read of a mapping that follows a contended write. The mapping of a
deleted IMPI still has the default IMPU. The mapping of an added IMPI is there, unless the
write had the CAS value 0. -/
def RereadsFind (irs : Irs) (hs : History) (w : World) : Call → Prop
  | .getImpiMapping s impi => ∀ m ∈ contendedSet hs,
    (irs.impis[impi]? = some .deleted → (w.stores s).Maps impi irs.defaultImpu) ∧
      (irs.impis[impi]? = some .added → m.cas ≠ 0 → (w.stores s).mappings.value? impi ≠ none)
  | _ => True

instance (st : ImpuStore) (impi D : String) : Decidable (st.Maps impi D) :=
  match h : st.mappings.value? impi with
  | some (.decoded m) => decidable_of_iff (D ∈ m.defaultImpus) (by simp [ImpuStore.Maps, h])
  | some .corrupt => .isFalse (by simp [ImpuStore.Maps, h])
  | none => .isFalse (by simp [ImpuStore.Maps, h])

instance (irs : Irs) (hs : History) (w : World) : (o : Call) → Decidable (RereadsFind irs hs w o)
  | .getImpiMapping s impi => inferInstanceAs (Decidable (∀ m ∈ contendedSet hs,
    (irs.impis[impi]? = some .deleted → (w.stores s).Maps impi irs.defaultImpu) ∧
      (irs.impis[impi]? = some .added → m.cas ≠ 0 → (w.stores s).mappings.value? impi ≠ none)))
  | .getImpu _ _ => .isTrue trivial
  | .setImpu _ _ => .isTrue trivial
  | .setImpuWithoutCas _ _ => .isTrue trivial
  | .addImpu _ _ => .isTrue trivial
  | .deleteImpu _ _ => .isTrue trivial
  | .setImpiMapping _ _ => .isTrue trivial
  | .deleteImpiMapping _ _ => .isTrue trivial
  | .time => .isTrue trivial
  | .progressCb => .isTrue trivial

/-! ### Single calls -/

section Calls

variable {A : History → World → Call → Prop} {s : StoreId} {b : Nat} {hs : History} {w : World}

/-- A read, with its answer at the moment it is made. -/
theorem halts_read {o : Call} (ho : o.IsRead) (hdec : (w.stores s).Decodable) :
    Halts serve (Call.writesTo s) A (fun r b' hs' w' => Moves s b w b' w' ∧
      ∃ w₁, A hs w₁ o ∧ w'.stores = w₁.stores ∧ hs' = hs ++ [⟨o, r⟩] ∧ r = (serve o w₁).1)
      b (.call o .ret) hs w := by
  refine .call fun b₁ w₁ he ha => .ret ⟨?_, w₁, ha, serve_stores_of_isRead ho w₁, rfl, rfl⟩
  exact (Moves.of_interferes he hdec).of_eq (serve_stores_of_isRead ho w₁)

/-- The answers to a read of a mapping in a store whose contents decode. -/
theorem getImpiMapping_cases {st : ImpuStore} (hdec : st.Decodable) (impi : String) :
    st.getImpiMapping impi = (.notFound, none) ∧ st.mappings.cells impi = none ∨
      ∃ m, st.getImpiMapping impi = (.ok, some m) ∧ m.impi = impi ∧
        st.mappings.cells impi = some (m.cas, .decoded m.toData) := by
  cases hcell : st.mappings.cells impi with
  | none => exact .inl ⟨ImpuStore.getImpiMapping_of_none hcell, rfl⟩
  | some p =>
    obtain ⟨cas, blob⟩ := p
    cases blob with
    | corrupt => exact absurd (CasTable.value?_of_cells hcell) (hdec.mappings impi)
    | decoded data => exact .inr ⟨_, ImpuStore.getImpiMapping_of_decoded hcell, rfl, rfl⟩

/-- A read of a mapping. The version that it answers is the stored one when it returns. -/
theorem halts_getImpiMapping (impi : String) (hdec : (w.stores s).Decodable) :
    Halts serve (Call.writesTo s) A (fun r b' _ w' => Moves s b w b' w' ∧
      (∃ w₁, A hs w₁ (.getImpiMapping s impi) ∧ w'.stores = w₁.stores) ∧
      (r = (.notFound, none) ∧ (w'.stores s).mappings.cells impi = none ∨
        ∃ m, r = (.ok, some m) ∧ m.impi = impi ∧
          (w'.stores s).mappings.cells impi = some (m.cas, .decoded m.toData)))
      b (getImpiMapping s impi) hs w := by
  refine (halts_read (show Call.IsRead (.getImpiMapping s impi) from trivial) hdec).weaken ?_
  rintro r b' hs' w' ⟨hmoves, w₁, ha, hst, -, rfl⟩
  refine ⟨hmoves, ⟨w₁, ha, hst⟩, ?_⟩
  have hcases := getImpiMapping_cases hmoves.decodable impi
  rw [hst] at hcases ⊢
  exact hcases

/-- A clock reading. -/
theorem halts_timeNow (hdec : (w.stores s).Decodable) :
    Halts serve (Call.writesTo s) A (fun _ b' _ w' => Moves s b w b' w') b timeNow hs w :=
  (halts_read (show Call.IsRead .time from trivial) hdec).weaken fun _ _ _ _ h => h.1

/-- A write of a mapping. It meets contention only when the version was an old one already,
or when the others have written. -/
theorem halts_setImpiMapping (m : ImpiMapping) (hdec : (w.stores s).Decodable) :
    Halts serve (Call.writesTo s) A (fun r b' hs' w' => (w'.stores s).Decodable ∧ b' ≤ b ∧
      (r = .ok ∨ r = .dataContention ∧ contendedSet hs' = some m ∧
        ((w.stores s).mappings.version m.impi = m.cas → b' < b)))
      b (setImpiMapping s m) hs w := by
  refine .call fun b₁ w₁ he _ => .ret ?_
  have hmoves := Moves.of_interferes he hdec
  refine ⟨decodable_serve _ hmoves.decodable, hmoves.le, ?_⟩
  rcases serve_setImpiMapping_cases w₁ s m with ⟨-, hok, -⟩ | ⟨hv, hcont, -⟩
  · exact .inl hok
  · refine .inr ⟨hcont, ?_, fun hcurrent => ?_⟩
    · unfold contendedSet
      rw [List.getLast?_concat]
      exact if_pos (by rw [hcont]; rfl)
    · rcases hmoves.quiet with hlt | ⟨-, hst⟩
      · exact hlt
      · rw [hst] at hv
        exact absurd hcurrent hv

end Calls

/-! ### IMPI mappings -/

section Mappings

variable {irs : Irs} {s : StoreId} {b : Nat} {hs : History} {w : World}

/-- One pass of the loop that removes a mapping. It goes round only when the others have
written. -/
theorem halts_removeMappingPass {impi : String} (himpi : irs.impis[impi]? = some .deleted)
    {status : Status} (hstatus : status = .dataContention → ∃ m, contendedSet hs = some m)
    (hdec : (w.stores s).Decodable) :
    Halts serve (Call.writesTo s) (RereadsFind irs) (fun status' b' hs' w' =>
      (w'.stores s).Decodable ∧ (status' = .dataContention →
        b' < b ∧ ∃ m, contendedSet hs' = some m)) b (removeMappingPass irs s impi status) hs w := by
  refine (halts_getImpiMapping impi hdec).bind ?_
  rintro r b₁ hs₁ w₁ ⟨hmoves, ⟨w', ha, hst⟩, hr⟩
  -- Nothing to remove: the status is that of the last attempt, which had not met contention.
  have hskip : ¬ (w₁.stores s).Maps impi irs.defaultImpu → status ≠ .dataContention := by
    intro hnot hcont
    obtain ⟨m, hm⟩ := hstatus hcont
    rw [hst] at hnot
    exact hnot ((ha m hm).1 himpi)
  rcases hr with ⟨rfl, hcell⟩ | ⟨m, rfl, himpi', hcell⟩
  · refine .ret ⟨hmoves.decodable, fun hcont => absurd hcont (hskip ?_)⟩
    rintro ⟨data, hdata, -⟩
    rw [CasTable.value?_eq_none.mpr hcell] at hdata
    cases hdata
  · show Halts _ _ _ _ _ (if m.hasDefaultImpu irs.defaultImpu then _ else _) _ _
    split
    · show Halts _ _ _ _ _ (if (m.removeDefaultImpu irs.defaultImpu).isEmpty then _ else _) _ _
      split
      · refine .call fun b₂ w₂ he _ => .ret ⟨?_, nofun⟩
        exact decodable_serve _ (Moves.of_interferes he hmoves.decodable).decodable
      · refine (halts_setImpiMapping _ hmoves.decodable).weaken ?_
        rintro r b₂ hs₂ w₂ ⟨hdec₂, hle, rfl | ⟨rfl, hlast, hlt⟩⟩
        · exact ⟨hdec₂, nofun⟩
        · have hversion : (w₁.stores s).mappings.version m.impi = m.cas := by
            rw [himpi']
            exact CasTable.version_of_cells hcell
          have := hlt hversion
          have := hmoves.le
          exact ⟨hdec₂, fun _ => ⟨by omega, _, hlast⟩⟩
    · rename_i hD
      refine .ret ⟨hmoves.decodable, fun hcont => absurd hcont (hskip ?_)⟩
      rintro ⟨data, hdata, hmem⟩
      rw [CasTable.value?_of_cells hcell] at hdata
      cases hdata
      exact hD (decide_eq_true hmem)

theorem halts_removeMapping {impi : String} (himpi : irs.impis[impi]? = some .deleted)
    {status : Status} (hstatus : status ≠ .dataContention) (hdec : (w.stores s).Decodable) :
    Halts serve (Call.writesTo s) (RereadsFind irs) (fun status' _ _ w' =>
      status' ≠ .dataContention ∧ (w'.stores s).Decodable) b (removeMapping irs s impi status)
      hs w := by
  -- The measure is the number of writes that the others have left.
  refine Halts.loop (fun n status b hs w => n = b ∧ (w.stores s).Decodable ∧
    (status = .dataContention → ∃ m, contendedSet hs = some m)) ?_
    ⟨rfl, hdec, fun h => absurd h hstatus⟩
  rintro n status b hs w ⟨rfl, hdec, hlast⟩
  refine (halts_removeMappingPass himpi hlast hdec).weaken ?_
  rintro status' b' hs' w' ⟨hdec', hcont⟩
  split
  · rename_i hagain
    obtain ⟨hlt, hlast'⟩ := hcont (of_decide_eq_true hagain)
    exact ⟨b', hlt, rfl, hdec', fun _ => hlast'⟩
  · rename_i hagain
    exact ⟨fun h => hagain (decide_eq_true h), hdec'⟩

/-- The mapping that the refresh writes has the version that the read has answered. -/
theorem refreshedMapping_current {impi : String} (now : Int) {t : CasTable String (Blob MappingData)}
    {r : Status × Option ImpiMapping}
    (hr : r = (.notFound, none) ∧ t.cells impi = none ∨ ∃ m, r = (.ok, some m) ∧ m.impi = impi ∧
      t.cells impi = some (m.cas, .decoded m.toData)) :
    t.version (refreshedMapping irs impi now r).impi = (refreshedMapping irs impi now r).cas := by
  rcases hr with ⟨rfl, hcell⟩ | ⟨m, rfl, rfl, hcell⟩
  · exact CasTable.version_eq_zero.mpr hcell
  · rw [refreshedMapping_found]
    exact CasTable.version_of_cells hcell

theorem halts_refreshMapping (impi : String) (status : Status) (hdec : (w.stores s).Decodable) :
    Halts serve (Call.writesTo s) (RereadsFind irs) (fun status' _ _ w' =>
      status' ≠ .dataContention ∧ (w'.stores s).Decodable) b (refreshMapping irs s impi status)
      hs w := by
  refine Halts.loop (fun n _ b _ w => n = b ∧ (w.stores s).Decodable) ?_ ⟨rfl, hdec⟩
  rintro n status b hs w ⟨rfl, hdec⟩
  refine (halts_getImpiMapping impi hdec).bind ?_
  rintro r b₁ hs₁ w₁ ⟨hmoves₁, -, hr⟩
  refine (halts_timeNow hmoves₁.decodable).bind fun now b₂ hs₂ w₂ hmoves₂ => ?_
  refine (halts_setImpiMapping _ hmoves₂.decodable).weaken ?_
  rintro r' b₃ hs₃ w₃ ⟨hdec₃, hle, rfl | ⟨rfl, -, hlt⟩⟩
  · exact ⟨nofun, hdec₃⟩
  · -- Contention: the others have written after the read, before or after the clock reading.
    refine ⟨b₃, ?_, rfl, hdec₃⟩
    have := hmoves₁.le
    rcases hmoves₂.quiet with hlt₂ | ⟨rfl, hst⟩
    · omega
    · rw [hst] at hlt
      have := hlt (refreshedMapping_current now hr)
      omega

/-- What a pass of the loop that adds a mapping starts from. The measure is twice the number
of writes that the others have left, and one more when the CAS value at hand is an old one. -/
structure Adding (s : StoreId) (impi : String) (n : Nat) (m : ImpiMapping) (b : Nat)
    (w : World) : Prop where
  decodable : (w.stores s).Decodable
  key : m.impi = impi
  measure : n = 2 * b + 1 ∨ n = 2 * b ∧ (w.stores s).mappings.version impi = m.cas

/-- One pass of the loop that adds a mapping. -/
theorem halts_addMappingPass {impi : String} (himpi : irs.impis[impi]? = some .added) {n : Nat}
    {st : AddMappingState} (h : Adding s impi n st.mapping b w) :
    Halts serve (Call.writesTo s) (RereadsFind irs) (fun st' b' _ w' =>
      (w'.stores s).Decodable ∧ (st'.status = .dataContention →
        ∃ n' < n, Adding s impi n' st'.mapping b' w')) b (addMappingPass irs s impi st) hs w := by
  refine (halts_setImpiMapping st.mapping h.decodable).bind ?_
  rintro r b₁ hs₁ w₁ ⟨hdec₁, hle₁, rfl | ⟨rfl, hlast, hlt⟩⟩
  · exact .ret ⟨hdec₁, nofun⟩
  -- A current CAS value meets contention only when the others have written.
  have hspent : 2 * b₁ < n := by
    rcases h.measure with hn | ⟨hn, hcurrent⟩
    · omega
    · rw [h.key] at hlt
      have := hlt hcurrent
      omega
  refine (halts_getImpiMapping impi hdec₁).bind ?_
  rintro r b₂ hs₂ w₂ ⟨hmoves₂, ⟨w', ha, hst⟩, hr⟩
  have hle₂ := hmoves₂.le
  rcases hr with ⟨rfl, hcell⟩ | ⟨m, rfl, himpi', hcell⟩
  · -- The mapping at hand is kept, and by the condition its CAS value is 0.
    refine .ret ⟨hmoves₂.decodable, fun _ => ⟨2 * b₂, by omega, hmoves₂.decodable, h.key, ?_⟩⟩
    refine .inr ⟨rfl, ?_⟩
    rw [CasTable.version_eq_zero.mpr hcell]
    by_contra hcas
    rw [hst] at hcell
    exact (ha st.mapping hlast).2 himpi (Ne.symm hcas) (CasTable.value?_eq_none.mpr hcell)
  · refine (halts_timeNow hmoves₂.decodable).bind fun now b₃ hs₃ w₃ hmoves₃ => .ret ?_
    refine ⟨hmoves₃.decodable, fun _ => ?_⟩
    have hmapping : (resolveMapping irs now m).mapping.impi = impi ∧
        (resolveMapping irs now m).mapping.cas = m.cas := by
      rw [resolveMapping_eq]
      exact ⟨himpi', rfl⟩
    rcases hmoves₃.quiet with hlt₃ | ⟨rfl, hst₃⟩
    · exact ⟨2 * b₃ + 1, by omega, hmoves₃.decodable, hmapping.1, .inl rfl⟩
    · refine ⟨2 * b₃, by omega, hmoves₃.decodable, hmapping.1, .inr ⟨rfl, ?_⟩⟩
      rw [hst₃, hmapping.2]
      exact CasTable.version_of_cells hcell

theorem halts_addMapping {impi : String} (himpi : irs.impis[impi]? = some .added)
    (status : Status) (hdec : (w.stores s).Decodable) :
    Halts serve (Call.writesTo s) (RereadsFind irs) (fun status' _ _ w' =>
      status' ≠ .dataContention ∧ (w'.stores s).Decodable) b (addMapping irs s impi status)
      hs w := by
  refine (halts_timeNow hdec).bind fun now b₁ hs₁ w₁ hmoves => ?_
  have hloop : Halts serve (Call.writesTo s) (RereadsFind irs)
      (fun st _ _ w' => st.status ≠ .dataContention ∧ (w'.stores s).Decodable) b₁
      (Prog.loop (addMappingPass irs s impi) (fun st => st.status.isContention)
        { status := status, mapping := .new impi irs.defaultImpu (now + irs.ttl) }) hs₁ w₁ := by
    refine Halts.loop (fun n st b _ w => Adding s impi n st.mapping b w) ?_
      ⟨hmoves.decodable, rfl, .inl rfl⟩
    intro n st b hs w hst
    refine (halts_addMappingPass himpi hst).weaken ?_
    rintro st' b' hs' w' ⟨hdec', hcont⟩
    split
    · rename_i hagain
      exact hcont (of_decide_eq_true hagain)
    · rename_i hagain
      exact ⟨fun h => hagain (decide_eq_true h), hdec'⟩
  exact hloop.bind fun st b' hs' w' hst => .ret hst

/-- `update_irs_impi_mappings` ends. -/
theorem halts_updateIrsImpiMappings (hdec : (w.stores s).Decodable) :
    Halts serve (Call.writesTo s) (RereadsFind irs) (fun _ _ _ _ => True) b
      (updateIrsImpiMappings irs s) hs w := by
  rw [updateIrsImpiMappings_eq]
  let Inv : Status → Nat → History → World → Prop := fun status _ _ w =>
    status ≠ .dataContention ∧ (w.stores s).Decodable
  have hremoves : Halts serve (Call.writesTo s) (RereadsFind irs) Inv b
      (Prog.forEach (irs.impisIn .deleted) (removeMapping irs s) .ok) hs w := by
    refine Halts.forEach Inv (fun impi hmem status b hs w hinv => ?_) ⟨nofun, hdec⟩
    exact halts_removeMapping (Data.mem_elementsInState.mp hmem) hinv.1 hinv.2
  refine hremoves.bind fun status b₁ hs₁ w₁ hinv₁ => ?_
  have hrefresh : Halts serve (Call.writesTo s) (RereadsFind irs) Inv b₁
      (if irs.refreshed then
        Prog.forEach (irs.impisIn .unchanged) (refreshMapping irs s) status
      else pure status) hs₁ w₁ := by
    split
    · exact Halts.forEach Inv
        (fun impi _ status b hs w hinv => halts_refreshMapping impi status hinv.2) hinv₁
    · exact .ret hinv₁
  refine hrefresh.bind fun status b₂ hs₂ w₂ hinv₂ => ?_
  refine (Halts.forEach Inv (fun impi hmem status b hs w hinv => ?_) hinv₂).weaken
    fun _ _ _ _ _ => trivial
  exact halts_addMapping (Data.mem_elementsInState.mp hmem) status hinv.2

end Mappings

/-! ### Associated IMPUs -/

section Associated

variable {A : History → World → Call → Prop} {irs : Irs} {s : StoreId} {b : Nat} {hs : History}
variable {w : World}

/-- `update_irs_associated_impus` ends. A delete never meets contention, so the first pass is
the last one. -/
theorem halts_updateIrsAssociatedImpus (hdec : (w.stores s).Decodable) :
    Halts serve (Call.writesTo s) A (fun _ _ _ _ => True) b (updateIrsAssociatedImpus irs s)
      hs w := by
  rw [updateIrsAssociatedImpus_eq]
  -- These writes are not compared with a version, so no loop goes round twice.
  let Inv : Status → Nat → History → World → Prop := fun status _ _ w =>
    status ≠ .dataContention ∧ (w.stores s).Decodable
  have hremove : ∀ impu status b hs w, Inv status b hs w →
      Halts serve (Call.writesTo s) A Inv b (removeAssociatedImpu irs s impu status) hs w := by
    intro impu status b hs w hinv
    refine Halts.loop (fun _ status b hs w => Inv status b hs w) ?_ (n := 0) hinv
    intro n status b hs w hinv
    have hpass : Halts serve (Call.writesTo s) A Inv b
        (removeAssociatedImpuPass irs s impu status) hs w := by
      refine (halts_read (show Call.IsRead (.getImpu s impu) from trivial) hinv.2).bind ?_
      rintro r b₁ hs₁ w₁ ⟨hmoves, -⟩
      have hskip : Inv status b₁ hs₁ w₁ := ⟨hinv.1, hmoves.decodable⟩
      split
      · split
        · refine .call fun b₂ w₂ he _ => .ret ⟨nofun, ?_⟩
          exact decodable_serve _ (Moves.of_interferes he hmoves.decodable).decodable
        · exact .ret hskip
      · exact .ret hskip
    refine hpass.weaken fun status' b' hs' w' hinv' => ?_
    rw [show status'.isContention = false from decide_eq_false hinv'.1]
    exact hinv'
  have hwrite : ∀ impu status b hs w, Inv status b hs w →
      Halts serve (Call.writesTo s) A Inv b (writeAssociatedImpu irs s impu status) hs w := by
    intro impu status b hs w hinv
    refine (halts_timeNow hinv.2).bind fun now b₁ hs₁ w₁ hmoves => ?_
    refine .call fun b₂ w₂ he _ => .ret ⟨hinv.1, ?_⟩
    exact decodable_serve _ (Moves.of_interferes he hmoves.decodable).decodable
  have hinit : Inv .ok b hs w := ⟨nofun, hdec⟩
  refine (Halts.forEach Inv (fun impu _ => hremove impu) hinit).bind ?_
  intro status b₁ hs₁ w₁ hinv₁
  have hrefresh : Halts serve (Call.writesTo s) A Inv b₁
      (if irs.refreshed then
        Prog.forEach (irs.impusIn .unchanged) (writeAssociatedImpu irs s) status
      else pure status) hs₁ w₁ := by
    split
    · exact Halts.forEach Inv (fun impu _ => hwrite impu) hinv₁
    · exact .ret hinv₁
  refine hrefresh.bind fun status b₂ hs₂ w₂ hinv₂ => ?_
  exact (Halts.forEach Inv (fun impu _ => hwrite impu) hinv₂).weaken fun _ _ _ _ _ => trivial

end Associated

/-! ### The record of the default IMPU -/

section Default

variable {A : History → World → Call → Prop} {s : StoreId} {b b₁ : Nat} {hs : History}
variable {w w₁ : World}

/-- What a pass of the loop of `perform_irs_impu_action` leaves: it goes round only when the
others have written since there were `b` writes left. -/
def PassEnds (s : StoreId) (b : Nat) (st : ImpuActionState) (b' : Nat) (_ : History)
    (w' : World) : Prop :=
  (w'.stores s).Decodable ∧ st.impu = none ∧ (st.status = .dataContention → b' < b)

/-- The action at the end of a pass, on a record whose CAS value was the current one at `w₁`. -/
theorem halts_apply (action : IrsImpuAction) (irs : Irs) (impu : DefaultImpu)
    (hcurrent : (w₁.stores s).impus.version impu.impu = impu.cas) (hmoves : Moves s b₁ w₁ b w) :
    Halts serve (Call.writesTo s) A (PassEnds s b₁) b
      (action.apply s impu >>= fun status => pure { status := status, irs := irs, impu := none })
      hs w := by
  cases action with
  | deleteImpu =>
    refine .call fun b₂ w₂ he _ => .ret ⟨?_, rfl, nofun⟩
    exact decodable_serve _ (Moves.of_interferes he hmoves.decodable).decodable
  | setImpu =>
    refine .call fun b₂ w₂ he _ => .ret ?_
    have hmoves₂ := hmoves.trans (Moves.of_interferes he hmoves.decodable)
    refine ⟨decodable_serve _ hmoves₂.decodable, rfl, fun hcont => ?_⟩
    rcases hmoves₂.quiet with hlt | ⟨-, hst⟩
    · exact hlt
    · -- Nothing was written since the read, so the write has succeeded.
      rcases serve_setImpu_cases w₂ s (.default impu) with ⟨-, hok, -⟩ | ⟨hv, -, -⟩
      · exact absurd (hcont.symm.trans hok) nofun
      · rw [hst] at hv
        exact absurd hcurrent hv

/-- The same after a clock reading. -/
theorem halts_timedApply (action : IrsImpuAction) (irs : Irs) (cas : Nat) (store : Option StoreId)
    (hcurrent : (w₁.stores s).impus.version irs.defaultImpu = cas) (hmoves : Moves s b₁ w₁ b w) :
    Halts serve (Call.writesTo s) A (PassEnds s b₁) b
      (timeNow >>= fun now => action.apply s (irs.createImpu cas store now) >>= fun status =>
        pure { status := status, irs := irs, impu := none }) hs w :=
  (halts_timeNow hmoves.decodable).bind fun _ _ _ _ hmoves' =>
    halts_apply action irs _ hcurrent (hmoves.trans hmoves')

/-- The answers to a read of a record in a store whose contents decode. -/
theorem getImpu_cases {st : ImpuStore} (hdec : st.Decodable) (s : StoreId) (impu : String) :
    st.getImpu s impu = (.notFound, none) ∧ st.impus.version impu = 0 ∨
      ∃ x, st.getImpu s impu = (.ok, some x) ∧ st.impus.version impu = x.cas := by
  cases hcell : st.impus.cells impu with
  | none => exact .inl ⟨ImpuStore.getImpu_of_none hcell, CasTable.version_eq_zero.mpr hcell⟩
  | some p =>
    obtain ⟨cas, blob⟩ := p
    cases blob with
    | corrupt => exact absurd (CasTable.value?_of_cells hcell) (hdec.impus impu)
    | decoded data =>
      refine .inr ⟨_, ImpuStore.getImpu_of_decoded hcell, ?_⟩
      rw [CasTable.version_of_cells hcell]
      cases data <;> rfl

/-- The pass that reads the record first. -/
theorem halts_rereadPass (action : IrsImpuAction) (irs : Irs) (hdec : (w.stores s).Decodable) :
    Halts serve (Call.writesTo s) A (PassEnds s b) b (rereadPass action s irs) hs w := by
  refine (halts_read (show Call.IsRead (.getImpu s irs.defaultImpu) from trivial) hdec).bind ?_
  rintro r b₁ hs₁ w₁ ⟨hmoves, w', -, hst, -, hr⟩
  have hr : r = (w'.stores s).getImpu s irs.defaultImpu := hr
  rw [← hst] at hr
  -- What the pass loses after the read counts as lost in the pass.
  suffices hrest : Halts serve (Call.writesTo s) A (PassEnds s b₁) b₁ _ hs₁ w₁ from
    hrest.weaken fun st b' _ _ h => ⟨h.1, h.2.1, fun hc => Nat.lt_of_lt_of_le (h.2.2 hc) hmoves.le⟩
  have hstay : Moves s b₁ w₁ b₁ w₁ := ⟨hmoves.decodable, .inr ⟨rfl, rfl⟩⟩
  rcases getImpu_cases hmoves.decodable s irs.defaultImpu with ⟨hget, hversion⟩ | ⟨x, hget, hversion⟩
  · rw [hr, hget]
    cases action with
    | deleteImpu => exact .ret ⟨hmoves.decodable, rfl, nofun⟩
    | setImpu => exact halts_timedApply .setImpu irs 0 none hversion hstay
  · rw [hr, hget]
    cases x with
    | default d =>
      show Halts _ _ _ _ _ (irs.mergeFromStore d >>= _) _ _
      unfold Irs.mergeFromStore
      split
      · exact halts_timedApply action (irs.updateFromImpuFromStore d 0) d.cas d.store hversion hstay
      · refine (halts_timeNow hmoves.decodable).bind fun now b₂ hs₂ w₂ hmoves₂ => ?_
        exact halts_timedApply action (irs.updateFromImpuFromStore d now) d.cas d.store hversion
          hmoves₂
    | associated a =>
      show Halts _ _ _ _ _ (if irs.refreshed then _ else _) _ _
      split
      · exact halts_timedApply action irs a.cas a.store hversion hstay
      · exact .ret ⟨hmoves.decodable, rfl, nofun⟩

/-- `perform_irs_impu_action` ends. The first pass may try an old CAS value, and every other
pass reads first. -/
theorem halts_performIrsImpuAction (action : IrsImpuAction) (irs : Irs)
    (hdec : (w.stores s).Decodable) :
    Halts serve (Call.writesTo s) A (fun _ _ _ _ => True) b (performIrsImpuAction action irs s)
      hs w := by
  have hloop : ∀ impu b hs w, (w.stores s).Decodable → Halts serve (Call.writesTo s) A
      (fun _ _ _ _ => True) b (Prog.loop (impuActionPass action s) (fun s => s.status.isContention)
        { status := .ok, irs := irs, impu := impu }) hs w := by
    intro impu b hs w hdec
    -- The first pass may write the record of the IRS without a read, and then conflict with a
    -- write that was made earlier and is not in the budget. That is one retry more.
    refine Halts.loop (fun n st b _ w => (w.stores s).Decodable ∧
      (n = b + 1 ∨ n = b ∧ st.impu = none)) ?_ ⟨hdec, .inl rfl⟩
    rintro n st b hs w ⟨hdec, hn⟩
    have hpass : Halts serve (Call.writesTo s) A (fun st' b' _ w' => (w'.stores s).Decodable ∧
        st'.impu = none ∧ (st'.status = .dataContention → b' < n)) b
        (impuActionPass action s st) hs w := by
      unfold impuActionPass
      split
      · rename_i d himpu
        have hn : n = b + 1 := hn.resolve_right fun h => by simp [himpu] at h
        cases action with
        | deleteImpu =>
          refine .call fun b₂ w₂ he _ => .ret ⟨?_, rfl, nofun⟩
          exact decodable_serve _ (Moves.of_interferes he hdec).decodable
        | setImpu =>
          refine .call fun b₂ w₂ he _ => .ret ?_
          have hmoves := Moves.of_interferes he hdec
          have := hmoves.le
          exact ⟨decodable_serve _ hmoves.decodable, rfl, fun _ => by omega⟩
      · refine (halts_rereadPass action st.irs hdec).weaken fun st' b' _ w' h => ?_
        exact ⟨h.1, h.2.1, fun hcont => by have := h.2.2 hcont; omega⟩
    refine hpass.weaken fun st' b' hs' w' h => ?_
    split
    · rename_i hagain
      exact ⟨b', h.2.2 (of_decide_eq_true hagain), h.1, .inr ⟨rfl, h.2.1⟩⟩
    · trivial
  unfold performIrsImpuAction Irs.getImpuForStore
  split
  · refine (halts_timeNow hdec).bind fun now b₁ hs₁ w₁ hmoves => ?_
    exact (hloop _ _ _ _ hmoves.decodable).bind fun _ _ _ _ _ => .ret trivial
  · exact (hloop _ _ _ _ hdec).bind fun _ _ _ _ _ => .ret trivial

end Default

/-! ### Every interleaving -/

/-- On a store whose contents decode, and among other clients that make finitely many writes
on it in all, `update_irs_associated_impus` and `perform_irs_impu_action` return, and so does
`update_irs_impi_mappings` when its reads after contention meet the condition. -/
theorem retries_end (irs : Irs) (s : StoreId) (w : World) (hdec : (w.stores s).Decodable)
    (others : Nat → List Call)
    (hfinite : ∃ b, ∀ n, ((List.range n).flatMap others).countP (Call.writesTo s) ≤ b) :
    (Running.Meets serve (RereadsFind irs) others (.start (updateIrsImpiMappings irs s) w) →
      Running.Returns serve others (.start (updateIrsImpiMappings irs s) w)) ∧
    Running.Returns serve others (.start (updateIrsAssociatedImpus irs s) w) ∧
    ∀ action, Running.Returns serve others (.start (performIrsImpuAction action irs s) w) := by
  obtain ⟨b, hb⟩ := hfinite
  have hb : ∀ n,
      ((List.range' ([] : History).length n).flatMap others).countP (Call.writesTo s) ≤ b := by
    intro n
    rw [List.length_nil, ← List.range_eq_range']
    exact hb n
  refine ⟨fun hmeets => ?_, ?_, fun action => ?_⟩
  · exact (halts_updateIrsImpiMappings hdec).returns hb hmeets
  · exact (halts_updateIrsAssociatedImpus (A := fun _ _ _ => True) hdec).returns hb
      fun _ _ _ => trivial
  · exact (halts_performIrsImpuAction (A := fun _ _ _ => True) action irs hdec).returns hb
      fun _ _ _ => trivial

/-! ### The two defects -/

section Defects

variable {irs : Irs} {s : StoreId} {impi : String} {others : Nat → List Call}

/-- The others write nothing on the store from the given call of the client on. -/
def QuietFrom (s : StoreId) (others : Nat → List Call) (n : Nat) : Prop :=
  ∀ i ≥ n, ∀ o ∈ others i, o.writesTo s = false

theorem QuietFrom.succ {n : Nat} (h : QuietFrom s others n) : QuietFrom s others (n + 1) :=
  fun i hi => h i (by omega)

/-- Calls that do not write on the store leave it as it is. -/
theorem after_stores {os : List Call} (w : World) (h : ∀ o ∈ os, o.writesTo s = false) :
    (Handler.after serve os w).stores s = w.stores s := by
  induction os generalizing w with
  | nil => rfl
  | cons o os ih =>
    have hrest := ih (serve o w).2 fun o' ho' => h o' (List.mem_cons_of_mem _ ho')
    exact hrest.trans (serve_stores_of_not_writesTo w (h o List.mem_cons_self))

/-- A pass that removes a mapping is a read. It ends there with the status it started with
when there is nothing to remove, and otherwise it writes what is left of the mapping. -/
theorem removeMappingPass_shape (irs : Irs) (s : StoreId) (impi : String) (status : Status) :
    ∃ rest : Status × Option ImpiMapping → CacheProg Status,
      removeMappingPass irs s impi status = .call (.getImpiMapping s impi) rest ∧
      (∀ found, (∀ m, found = (.ok, some m) → irs.defaultImpu ∉ m.defaultImpus) →
        rest found = .ret status) ∧
      ∀ m : ImpiMapping, irs.defaultImpu ∈ m.defaultImpus →
        (m.removeDefaultImpu irs.defaultImpu).isEmpty = false →
        rest (.ok, some m) = setImpiMapping s (m.removeDefaultImpu irs.defaultImpu) := by
  refine ⟨_, rfl, fun found hfound => ?_, fun m hmem hleft => ?_⟩
  · simp only [Prog.bind]
    split
    · rename_i m
      have hD : m.hasDefaultImpu irs.defaultImpu = false := decide_eq_false (hfound m rfl)
      rw [hD]
      rfl
    · rfl
  · have hD : m.hasDefaultImpu irs.defaultImpu = true := decide_eq_true hmem
    simp only [Prog.bind, hD, hleft, if_true]
    rfl

/-- The loop that removes a mapping, after contention, when the mapping has lost the default
IMPU: every further pass finds nothing to do, and the status stays. -/
theorem removeMapping_not_returns {α : Type} {k : Status → CacheProg α}
    {c : Running Call Call.Resp World α}
    (hprog : c.prog = .doWhile (removeMappingPass irs s impi) Status.isContention .dataContention k)
    (hgone : ¬ (c.world.stores s).Maps impi irs.defaultImpu)
    (hquiet : QuietFrom s others c.hist.length) : ¬ Running.Returns serve others c := by
  obtain ⟨rest, hpass, hrest, -⟩ := removeMappingPass_shape irs s impi .dataContention
  have hunroll : Prog.unroll (removeMappingPass irs s impi) Status.isContention .dataContention k
      = .call (.getImpiMapping s impi) fun found => rest found >>= fun status =>
        if status.isContention then
          .doWhile (removeMappingPass irs s impi) Status.isContention status k
        else k status := by
    unfold Prog.unroll
    rw [hpass]
    rfl
  -- The client is at the head of the loop or at the read of a pass.
  refine Running.not_returns (fun c => QuietFrom s others c.hist.length ∧
    ¬ (c.world.stores s).Maps impi irs.defaultImpu ∧
    (c.prog = .doWhile (removeMappingPass irs s impi) Status.isContention .dataContention k ∨
      c.prog = Prog.unroll (removeMappingPass irs s impi) Status.isContention .dataContention k))
    ?_ ?_ ⟨hquiet, hgone, .inl hprog⟩
  · rintro ⟨prog, hist, world⟩ ⟨hquiet, hgone, rfl | rfl⟩
    · exact ⟨hquiet, hgone, .inr rfl⟩
    · have hst := after_stores world (hquiet hist.length (Nat.le_refl _))
      have hfound := hrest (((Handler.after serve (others hist.length) world).stores s).getImpiMapping
        impi) (by
          intro m hm hmem
          rw [hst] at hm
          obtain ⟨cas, data, hcell, rfl⟩ := ImpuStore.cells_of_getImpiMapping hm
          exact hgone ⟨data, CasTable.value?_of_cells hcell, hmem⟩)
      rw [hunroll]
      refine ⟨?_, ?_, .inl ?_⟩
      · show QuietFrom s others (hist ++ [_]).length
        rw [List.length_append]
        exact hquiet.succ
      · show ¬ ((Handler.after serve (others hist.length) world).stores s).Maps impi _
        rw [hst]
        exact hgone
      · show rest (((Handler.after serve (others hist.length) world).stores s).getImpiMapping impi)
          >>= _ = _
        rw [hfound]
        rfl
  · rintro c a ⟨-, -, hprog | hprog⟩ hret
    · rw [hprog] at hret
      cases hret
    · rw [hprog, hunroll] at hret
      cases hret

/-- The removal from a mapping that another client clears between the read and the write. -/
theorem removeMapping_stuck {α : Type} {k : Status → CacheProg α} {w : World} {m : ImpiMapping}
    (hfirst : others 0 = []) (hfound : (w.stores s).getImpiMapping impi = (.ok, some m))
    (hD : irs.defaultImpu ∈ m.defaultImpus)
    (hleft : (m.removeDefaultImpu irs.defaultImpu).isEmpty = false)
    (hversion : ((Handler.after serve (others 1) w).stores s).mappings.version m.impi ≠ m.cas)
    (hgone : ¬ ((Handler.after serve (others 1) w).stores s).Maps impi irs.defaultImpu)
    (hquiet : QuietFrom s others 2) :
    ¬ Running.Returns serve others (.start (removeMapping irs s impi .ok >>= k) w) := by
  intro hreturns
  obtain ⟨rest, hpass, -, hset⟩ := removeMappingPass_shape irs s impi .ok
  have hunroll : Prog.unroll (removeMappingPass irs s impi) Status.isContention .ok k
      = .call (.getImpiMapping s impi) fun found => rest found >>= fun status =>
        if status.isContention then
          .doWhile (removeMappingPass irs s impi) Status.isContention status k
        else k status := by
    unfold Prog.unroll
    rw [hpass]
    rfl
  have hhead : Running.Returns serve others
      { prog := Prog.unroll (removeMappingPass irs s impi) Status.isContention .ok k
        hist := [], world := w } := hreturns.doWhile
  rw [hunroll] at hhead
  have hget : serve (.getImpiMapping s impi) (Handler.after serve (others ([] : History).length) w)
      = ((.ok, some m), w) := by
    show serve (.getImpiMapping s impi) (Handler.after serve (others 0) w) = _
    rw [hfirst]
    exact congrArg (·, w) hfound
  -- The read finds the mapping, and the write that follows it is refused.
  have hread := hhead.call hget
  rw [hset m hD hleft] at hread
  have hcont : serve (.setImpiMapping s (m.removeDefaultImpu irs.defaultImpu))
      (Handler.after serve (others 1) w) = (Status.dataContention, Handler.after serve (others 1) w) :=
    casMapping_of_ne hversion
  exact removeMapping_not_returns rfl hgone hquiet (hread.call hcont)

/-- A pass that adds a mapping is a write, and a read after contention. When that finds no
mapping, the pass ends with the one that it started with. -/
theorem addMappingPass_shape (irs : Irs) (s : StoreId) (impi : String) (st : AddMappingState) :
    ∃ (rest : Status → CacheProg AddMappingState)
      (reread : Status × Option ImpiMapping → CacheProg AddMappingState),
      addMappingPass irs s impi st = .call (.setImpiMapping s st.mapping) rest ∧
      rest .dataContention = .call (.getImpiMapping s impi) reread ∧
      reread (.notFound, none) = .ret { st with status := .dataContention } ∧
      ∀ m, reread (.ok, some m) = timeNow >>= fun now => .ret (resolveMapping irs now m) :=
  ⟨_, _, rfl, rfl, rfl, fun _ => rfl⟩

/-- A pass that adds a mapping, in front of the rest of the program. -/
theorem unroll_addMappingPass {α : Type} (irs : Irs) (s : StoreId) (impi : String)
    (st : AddMappingState) (again : AddMappingState → CacheProg α)
    {rest : Status → CacheProg AddMappingState}
    (hpass : addMappingPass irs s impi st = .call (.setImpiMapping s st.mapping) rest) :
    addMappingPass irs s impi st >>= again
      = .call (.setImpiMapping s st.mapping) fun status => rest status >>= again := by
  rw [hpass]
  rfl

/-- The loop that adds a mapping, with an old CAS value, when the next attempt finds no
mapping: every further pass presents the same CAS value. -/
theorem addMapping_not_returns (irs : Irs) {impi : String} {α : Type}
    {k : AddMappingState → CacheProg α} {m : ImpiMapping}
    (himpi : m.impi = impi) (hcas : m.cas ≠ 0) {c : Running Call Call.Resp World α}
    (hprog : c.prog = .doWhile (addMappingPass irs s impi) (fun st => st.status.isContention)
      { status := .dataContention, mapping := m } k)
    (hgone : ((Handler.after serve (others c.hist.length) c.world).stores s).mappings.cells impi
      = none) (hquiet : QuietFrom s others (c.hist.length + 1)) :
    ¬ Running.Returns serve others c := by
  obtain ⟨rest, reread, hpass, hrest, hreread, -⟩ :=
    addMappingPass_shape irs s impi { status := .dataContention, mapping := m }
  let again : AddMappingState → CacheProg α := fun st =>
    if st.status.isContention then
      .doWhile (addMappingPass irs s impi) (fun st => st.status.isContention) st k
    else k st
  -- A call of this client leaves no mapping for the next one.
  have hnext : ∀ (e : Event Call Call.Resp) (hist : History) (v : World),
      QuietFrom s others (hist.length + 1) → (v.stores s).mappings.cells impi = none →
      ((Handler.after serve (others (hist ++ [e]).length) v).stores s).mappings.cells impi
        = none := by
    intro e hist v hquiet hgone
    rw [List.length_append, List.length_singleton, after_stores v (hquiet _ (Nat.le_refl _))]
    exact hgone
  -- The client is at the head of the loop, at the write of a pass, or at its second read.
  refine Running.not_returns (fun c => QuietFrom s others (c.hist.length + 1) ∧
    ((Handler.after serve (others c.hist.length) c.world).stores s).mappings.cells impi = none ∧
    (c.prog = .doWhile (addMappingPass irs s impi) (fun st => st.status.isContention)
        { status := .dataContention, mapping := m } k ∨
      c.prog = .call (.setImpiMapping s m) (fun status => rest status >>= again) ∨
      c.prog = .call (.getImpiMapping s impi) fun found => reread found >>= again))
    ?_ ?_ ⟨hquiet, hgone, .inl hprog⟩
  · rintro ⟨prog, hist, world⟩ ⟨hquiet, hgone, rfl | rfl | rfl⟩
    · exact ⟨hquiet, hgone, .inr (.inl (unroll_addMappingPass irs s impi _ again hpass))⟩
    · have hversion := CasTable.version_eq_zero.mpr hgone
      rcases serve_setImpiMapping_cases (Handler.after serve (others hist.length) world) s m with
        ⟨hv, -, -⟩ | ⟨-, hcont, hworld⟩
      · rw [himpi, hversion] at hv
        exact absurd hv.symm hcas
      · rw [← hworld] at hgone
        refine ⟨?_, hnext _ hist _ hquiet hgone, .inr (.inr ?_)⟩
        · show QuietFrom s others ((hist ++ [_]).length + 1)
          rw [List.length_append]
          exact hquiet.succ
        · show rest (serve (.setImpiMapping s m) _).1 >>= again = _
          rw [hcont, hrest]
          rfl
    · refine ⟨?_, hnext _ hist _ hquiet hgone, .inl ?_⟩
      · show QuietFrom s others ((hist ++ [_]).length + 1)
        rw [List.length_append]
        exact hquiet.succ
      · show reread (((Handler.after serve (others hist.length) world).stores s).getImpiMapping impi)
          >>= again = _
        rw [ImpuStore.getImpiMapping_of_none hgone, hreread]
        rfl
  · rintro c a ⟨-, -, hprog | hprog | hprog⟩ hret
    · rw [hprog] at hret
      cases hret
    · rw [hprog] at hret
      cases hret
    · rw [hprog] at hret
      cases hret

/-- The addition to a mapping that another client deletes between the read after contention
and the second attempt. -/
theorem addMapping_stuck {α : Type} {k : Status → CacheProg α} {w : World} {m : ImpiMapping}
    (hfirst : ∀ i < 4, others i = []) (hfound : (w.stores s).getImpiMapping impi = (.ok, some m))
    (hD : irs.defaultImpu ∉ m.defaultImpus)
    (hgone : ((Handler.after serve (others 4) w.tick.tick).stores s).mappings.cells impi = none)
    (hquiet : QuietFrom s others 5) :
    ¬ Running.Returns serve others (.start (addMapping irs s impi .ok >>= k) w) := by
  intro hreturns
  obtain ⟨cas, data, hcell, rfl⟩ := ImpuStore.cells_of_getImpiMapping hfound
  have hpos := ((w.stores s).mappings.fresh impi cas _ hcell).1
  have hfirst' : ∀ (hs : History) (v : World), hs.length < 4 →
      Handler.after serve (others hs.length) v = v := by
    intro hs v hlt
    rw [hfirst hs.length hlt]
    rfl
  let st : AddMappingState :=
    { status := .ok, mapping := .new impi irs.defaultImpu (w.clock 0 + irs.ttl) }
  obtain ⟨rest, reread, hpass, hrest, -, hresolve⟩ := addMappingPass_shape irs s impi st
  -- The clock reading and the first attempt, which presents the CAS value 0.
  have htime : serve .time (Handler.after serve (others ([] : History).length) w)
      = (w.clock 0, w.tick) := by
    rw [hfirst' [] w (by decide)]
    rfl
  have hattempt : Running.Returns serve others
      { prog := addMappingPass irs s impi st >>= fun st => if st.status.isContention then
            .doWhile (addMappingPass irs s impi) (fun st => st.status.isContention) st
              fun st => k st.status
          else k st.status
        hist := [⟨.time, w.clock 0⟩], world := w.tick } := (hreturns.call htime).doWhile
  rw [unroll_addMappingPass irs s impi st _ hpass] at hattempt
  have hversion : (w.tick.stores s).mappings.version st.mapping.impi ≠ st.mapping.cas := by
    show (w.stores s).mappings.version impi ≠ 0
    rw [CasTable.version_of_cells hcell]
    omega
  have hcont : serve (.setImpiMapping s st.mapping) (Handler.after serve
      (others ([⟨.time, w.clock 0⟩] : History).length) w.tick) = (Status.dataContention, w.tick) := by
    rw [hfirst' _ _ (by simp)]
    exact casMapping_of_ne hversion
  have hread := hattempt.call hcont
  rw [hrest] at hread
  -- The read after contention, and the second attempt with the CAS value that it has found.
  have hget : ∀ hs : History, hs.length < 4 →
      serve (.getImpiMapping s impi) (Handler.after serve (others hs.length) w.tick)
        = ((.ok, some (data.fromData impi cas)), w.tick) := by
    intro hs hlt
    rw [hfirst' _ _ hlt]
    exact congrArg (·, w.tick) hfound
  have hfound' := hread.call (hget _ (by simp))
  rw [hresolve] at hfound'
  have htime' : ∀ hs : History, hs.length < 4 →
      serve .time (Handler.after serve (others hs.length) w.tick) = (w.tick.clock 0, w.tick.tick) := by
    intro hs hlt
    rw [hfirst' _ _ hlt]
    rfl
  have hagain := Running.Returns.call (htime' _ (by simp)) hfound'
  have hsecond : resolveMapping irs (w.tick.clock 0) (data.fromData impi cas)
      = { status := .dataContention
          mapping := (data.fromData impi cas).withDefaultImpu irs.defaultImpu
            (toInt32 (irs.ttl + toInt32 (w.tick.clock 0))) } := by
    rw [resolveMapping_eq, if_neg fun h => hD h.1]
  refine addMapping_not_returns irs
    (m := (data.fromData impi cas).withDefaultImpu irs.defaultImpu
      (toInt32 (irs.ttl + toInt32 (w.tick.clock 0)))) (k := fun st => k st.status)
    rfl (Nat.ne_of_gt hpos) ?_ hgone hquiet hagain
  show (if (resolveMapping irs (w.tick.clock 0) (data.fromData impi cas)).status.isContention then
    _ else _) = _
  rw [hsecond]
  rfl

end Defects

/-- A subscriber with one IMPI, as a lookup builds it. -/
def oneImpiIrs : Irs :=
  .ofDefaultImpu
    { impu := "sip:d@example.com", associatedImpus := [], impis := ["impi@example.com"],
      registrationState := .registered, chargingAddresses := {}, serviceProfile := "profile",
      cas := 1, expiry := 100, store := some 0 } 0

/-- The store with the mapping of that IMPI. -/
def mappingWorld (defaultImpus : List String) : World :=
  .ofTables [] [("impi@example.com", { defaultImpus := defaultImpus, expiry := 100 })]

/-- A version of that mapping without the default IMPU of the subscriber. -/
def otherMapping : ImpiMapping where
  impi := "impi@example.com"
  cas := 1
  expiry := 200
  defaultImpus := ["sip:e@example.com"]

/-- Other clients that make the calls `os` before the call number `n`, and no others. -/
def onceAt (n : Nat) (os : List Call) : Nat → List Call := fun i => if i = n then os else []

theorem onceAt_finite (n : Nat) (os : List Call) (s : StoreId) :
    ∃ b, ∀ i, ((List.range i).flatMap (onceAt n os)).countP (Call.writesTo s) ≤ b := by
  suffices h : ∀ i, ((List.range i).flatMap (onceAt n os)).countP (Call.writesTo s)
      ≤ if n < i then os.length else 0 from
    ⟨os.length, fun i => (h i).trans (by split <;> omega)⟩
  intro i
  induction i with
  | zero => exact Nat.le_refl 0
  | succ i ih =>
    have hle : os.countP (Call.writesTo s) ≤ os.length := List.countP_le_length
    rw [List.range_succ, List.flatMap_append, List.countP_append, List.flatMap_singleton, onceAt]
    by_cases hi : i = n
    · subst hi
      rw [if_neg (by omega)] at ih
      rw [if_pos rfl, if_pos (by omega)]
      omega
    · rw [if_neg hi, List.countP_nil]
      split at ih <;> split <;> omega

theorem onceAt_quiet (n : Nat) (os : List Call) (s : StoreId) :
    QuietFrom s (onceAt n os) (n + 1) := by
  intro i hi o ho
  rw [onceAt, if_neg (by omega)] at ho
  cases ho

theorem decodable_mappingWorld (defaultImpus : List String) :
    ((mappingWorld defaultImpus).stores 0).Decodable := by
  refine ⟨fun key => ?_, fun key => ?_⟩
  · simp [mappingWorld, World.ofTables, CasTable.value?, CasTable.empty]
  · exact put_not_corrupt _ _ _ key (by simp [CasTable.value?, CasTable.empty])

/-- The mappings of the IRS, before its first loop. -/
theorem updateIrsImpiMappings_deleted (irs : Irs) (s : StoreId) {impi : String} {impis : List String}
    (h : irs.impisIn .deleted = impi :: impis) :
    ∃ k, updateIrsImpiMappings irs s = removeMapping irs s impi .ok >>= k := by
  rw [updateIrsImpiMappings_eq, h, Prog.forEach_cons, Prog.bind_bind]
  exact ⟨_, rfl⟩

theorem updateIrsImpiMappings_added (irs : Irs) (s : StoreId) {impi : String} {impis : List String}
    (hdeleted : irs.impisIn .deleted = []) (hunchanged : irs.impisIn .unchanged = [])
    (h : irs.impisIn .added = impi :: impis) :
    ∃ k, updateIrsImpiMappings irs s = addMapping irs s impi .ok >>= k := by
  rw [updateIrsImpiMappings_eq, hdeleted, hunchanged, h]
  refine ⟨Prog.forEach impis (addMapping irs s), ?_⟩
  cases irs.refreshed <;> rfl

/-- The IMPI is added while another default IMPU has its mapping, and that one puts the
mapping again between the read after contention and the second attempt. -/
theorem retries_end_addedImpi :
    Running.Returns serve (onceAt 4 [.setImpiMapping 0 otherMapping])
      (.start (updateIrsImpiMappings (oneImpiIrs.addAssociatedImpi "impi@example.com") 0)
        (mappingWorld ["sip:e@example.com"])) := by
  refine (retries_end (oneImpiIrs.addAssociatedImpi "impi@example.com") 0 _
    (decodable_mappingWorld ["sip:e@example.com"]) _ (onceAt_finite 4 _ 0)).1 ?_
  exact Running.meets_of_run 11 (by decide) (by decide)

/-- A deleted IMPI whose mapping another client has cleared in the meantime, and an added
IMPI whose mapping another client has deleted in the meantime. The contents decode, the others
make one write, and `update_irs_impi_mappings` does not return. -/
theorem retries_not_ending :
    let deleted := oneImpiIrs.deleteAssociatedImpi "impi@example.com"
    let added := oneImpiIrs.addAssociatedImpi "impi@example.com"
    let clears := onceAt 1 [.setImpiMapping 0 otherMapping]
    let deletes := onceAt 4 [.deleteImpiMapping 0 otherMapping]
    ¬ Running.Returns serve clears (.start (updateIrsImpiMappings deleted 0)
        (mappingWorld ["sip:d@example.com", "sip:e@example.com"])) ∧
      ¬ Running.Returns serve deletes
        (.start (updateIrsImpiMappings added 0) (mappingWorld ["sip:e@example.com"])) := by
  intro deleted added clears deletes
  constructor
  · obtain ⟨k, hk⟩ := updateIrsImpiMappings_deleted deleted 0
      (show deleted.impisIn .deleted = ["impi@example.com"] by decide)
    rw [hk]
    refine removeMapping_stuck (m := { otherMapping with
      expiry := 100, defaultImpus := ["sip:d@example.com", "sip:e@example.com"] })
      rfl (by decide) (by decide) (by decide) (by decide) ?_ (onceAt_quiet 1 _ 0)
    rintro ⟨m, hm, hmem⟩
    have hvalue : ((Handler.after serve (clears 1) (mappingWorld
        ["sip:d@example.com", "sip:e@example.com"])).stores 0).mappings.value? "impi@example.com"
        = some (.decoded { defaultImpus := ["sip:e@example.com"], expiry := 200 }) := by decide
    -- The other client has taken the default IMPU out, so no pass writes any more.
    rw [hvalue] at hm
    cases hm
    exact absurd hmem (by decide)
  · obtain ⟨k, hk⟩ := updateIrsImpiMappings_added added 0 (by decide) (by decide)
      (show added.impisIn .added = ["impi@example.com"] by decide)
    rw [hk]
    refine addMapping_stuck (m := { otherMapping with expiry := 100 }) ?_ (by decide) (by decide)
      (by decide) (onceAt_quiet 4 _ 0)
    intro i hi
    exact if_neg (by omega)

end Homestead

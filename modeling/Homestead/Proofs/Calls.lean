import Homestead.Lib.RelyGuarantee
import Homestead.Proofs.SoloPut

/-!
# `Homestead.Proofs.Calls`: what one store call does

One call of one client, seen from the others.

* `serve_later_impus` and `serve_later_mappings`: every call moves both tables forward in
  the sense of `CasTable.Later`, so what was read stays valid.
* `serve_impus_cells` and `serve_mappings_cells`: a call leaves every key but its own.
* `serve_setImpu_cases`, `serve_addImpu_cases` and `serve_setImpiMapping_cases`: the two
  outcomes of a compare-and-set write.
-/

set_option autoImplicit false

namespace Homestead

/-- The calls of one client so far, with their answers. -/
abbrev History := List (Event Call Call.Resp)

/-- A call that writes nothing. -/
def Call.IsRead : Call → Prop
  | .getImpu _ _ => True
  | .getImpiMapping _ _ => True
  | .time => True
  | .progressCb => True
  | _ => False

/-- The history after the call `o` at the world `w`. -/
def History.add (hs : History) (o : Call) (w : World) : History := hs ++ [⟨o, (serve o w).1⟩]

/-! ### What one call does to the tables -/

theorem casImpu_stores_ne {w : World} {s s' : StoreId} {impu : Impu} {cas : Nat} (h : s' ≠ s) :
    (w.casImpu s impu cas).2.stores s' = w.stores s' := by
  unfold World.casImpu
  split
  · exact w.setImpus_stores_ne _ h
  · rfl

theorem casMapping_stores_ne {w : World} {s s' : StoreId} {m : ImpiMapping} (h : s' ≠ s) :
    (w.casMapping s m).2.stores s' = w.stores s' := by
  unfold World.casMapping
  split
  · exact w.setMappings_stores_ne _ h
  · rfl

theorem serve_stores_of_isRead {o : Call} (h : o.IsRead) (w : World) :
    (serve o w).2.stores = w.stores := by
  cases o with
  | getImpu s impu => rfl
  | getImpiMapping s impi => rfl
  | time => rfl
  | progressCb => rfl
  | setImpu s impu => exact h.elim
  | setImpuWithoutCas s impu => exact h.elim
  | addImpu s impu => exact h.elim
  | deleteImpu s impu => exact h.elim
  | setImpiMapping s m => exact h.elim
  | deleteImpiMapping s m => exact h.elim

/-- A write by compare-and-set, by its two outcomes. -/
theorem casImpu_cases (w : World) (s : StoreId) (impu : Impu) (cas : Nat) :
    ((w.stores s).impus.version impu.impu = cas ∧ w.casImpu s impu cas = (.ok,
        w.setImpus s ((w.stores s).impus.put impu.impu (.decoded impu.toData)))) ∨
      (w.stores s).impus.version impu.impu ≠ cas ∧
        w.casImpu s impu cas = (.dataContention, w) := by
  by_cases h : (w.stores s).impus.version impu.impu = cas
  · exact .inl ⟨h, casImpu_of_version h⟩
  · exact .inr ⟨h, casImpu_of_ne h⟩

theorem casMapping_cases (w : World) (s : StoreId) (m : ImpiMapping) :
    ((w.stores s).mappings.version m.impi = m.cas ∧ w.casMapping s m = (.ok,
        w.setMappings s ((w.stores s).mappings.put m.impi (.decoded m.toData)))) ∨
      (w.stores s).mappings.version m.impi ≠ m.cas ∧ w.casMapping s m = (.dataContention, w) := by
  by_cases h : (w.stores s).mappings.version m.impi = m.cas
  · exact .inl ⟨h, casMapping_of_version h⟩
  · exact .inr ⟨h, casMapping_of_ne h⟩

/-- `set_impu` by its two outcomes. -/
theorem serve_setImpu_cases (w : World) (s : StoreId) (impu : Impu) :
    ((w.stores s).impus.version impu.impu = impu.cas ∧
      (serve (.setImpu s impu) w).1 = Status.ok ∧ (serve (.setImpu s impu) w).2 =
        w.setImpus s ((w.stores s).impus.put impu.impu (.decoded impu.toData))) ∨
      (w.stores s).impus.version impu.impu ≠ impu.cas ∧
        (serve (.setImpu s impu) w).1 = Status.dataContention ∧ (serve (.setImpu s impu) w).2 = w := by
  rcases casImpu_cases w s impu impu.cas with ⟨hv, heq⟩ | ⟨hv, heq⟩
  · have hserve : serve (.setImpu s impu) w = (Status.ok, _) := heq
    exact .inl ⟨hv, congrArg Prod.fst hserve, congrArg Prod.snd hserve⟩
  · have hserve : serve (.setImpu s impu) w = (Status.dataContention, w) := heq
    exact .inr ⟨hv, congrArg Prod.fst hserve, congrArg Prod.snd hserve⟩

/-- `add_impu` by its two outcomes. -/
theorem serve_addImpu_cases (w : World) (s : StoreId) (impu : Impu) :
    ((w.stores s).impus.version impu.impu = 0 ∧
      (serve (.addImpu s impu) w).1 = Status.ok ∧ (serve (.addImpu s impu) w).2 =
        w.setImpus s ((w.stores s).impus.put impu.impu (.decoded impu.toData))) ∨
      (w.stores s).impus.version impu.impu ≠ 0 ∧
        (serve (.addImpu s impu) w).1 = Status.dataContention ∧ (serve (.addImpu s impu) w).2 = w := by
  rcases casImpu_cases w s impu 0 with ⟨hv, heq⟩ | ⟨hv, heq⟩
  · have hserve : serve (.addImpu s impu) w = (Status.ok, _) := heq
    exact .inl ⟨hv, congrArg Prod.fst hserve, congrArg Prod.snd hserve⟩
  · have hserve : serve (.addImpu s impu) w = (Status.dataContention, w) := heq
    exact .inr ⟨hv, congrArg Prod.fst hserve, congrArg Prod.snd hserve⟩

/-- `set_impi_mapping` by its two outcomes. -/
theorem serve_setImpiMapping_cases (w : World) (s : StoreId) (m : ImpiMapping) :
    ((w.stores s).mappings.version m.impi = m.cas ∧
      (serve (.setImpiMapping s m) w).1 = Status.ok ∧ (serve (.setImpiMapping s m) w).2 =
        w.setMappings s ((w.stores s).mappings.put m.impi (.decoded m.toData))) ∨
      (w.stores s).mappings.version m.impi ≠ m.cas ∧
        (serve (.setImpiMapping s m) w).1 = Status.dataContention ∧
          (serve (.setImpiMapping s m) w).2 = w := by
  rcases casMapping_cases w s m with ⟨hv, heq⟩ | ⟨hv, heq⟩
  · have hserve : serve (.setImpiMapping s m) w = (Status.ok, _) := heq
    exact .inl ⟨hv, congrArg Prod.fst hserve, congrArg Prod.snd hserve⟩
  · have hserve : serve (.setImpiMapping s m) w = (Status.dataContention, w) := heq
    exact .inr ⟨hv, congrArg Prod.fst hserve, congrArg Prod.snd hserve⟩

/-- A write to the `impu` table of one store, seen from any store. -/
theorem setImpus_later {w : World} {s s' : StoreId} {t : CasTable String (Blob ImpuData)}
    (h : CasTable.Later (w.stores s).impus t) :
    CasTable.Later (w.stores s').impus ((w.setImpus s t).stores s').impus ∧
      ((w.setImpus s t).stores s').mappings = (w.stores s').mappings := by
  by_cases hs : s' = s
  · subst hs
    rw [World.setImpus_stores_self]
    exact ⟨h, rfl⟩
  · rw [w.setImpus_stores_ne t hs]
    exact ⟨.refl _, rfl⟩

theorem setMappings_later {w : World} {s s' : StoreId} {t : CasTable String (Blob MappingData)}
    (h : CasTable.Later (w.stores s).mappings t) :
    CasTable.Later (w.stores s').mappings ((w.setMappings s t).stores s').mappings ∧
      ((w.setMappings s t).stores s').impus = (w.stores s').impus := by
  by_cases hs : s' = s
  · subst hs
    rw [World.setMappings_stores_self]
    exact ⟨h, rfl⟩
  · rw [w.setMappings_stores_ne t hs]
    exact ⟨.refl _, rfl⟩

/-- Every call moves the `impu` table of every store forward. -/
theorem serve_later_impus (o : Call) (w : World) (s : StoreId) :
    CasTable.Later (w.stores s).impus ((serve o w).2.stores s).impus := by
  have hcas : ∀ s' impu cas,
      CasTable.Later (w.stores s).impus ((w.casImpu s' impu cas).2.stores s).impus := by
    intro s' impu cas
    rcases casImpu_cases w s' impu cas with ⟨-, h⟩ | ⟨-, h⟩
    · rw [h]
      exact (setImpus_later (.put _ _ _)).1
    · rw [h]
      exact .refl _
  cases o with
  | getImpu s' impu => exact .refl _
  | getImpiMapping s' impi => exact .refl _
  | time => exact .refl _
  | progressCb => exact .refl _
  | setImpu s' impu => exact hcas s' impu impu.cas
  | setImpuWithoutCas s' impu => exact (setImpus_later (.put _ _ _)).1
  | addImpu s' impu => exact hcas s' impu 0
  | deleteImpu s' impu => exact (setImpus_later (.erase _ _)).1
  | setImpiMapping s' m =>
    rcases casMapping_cases w s' m with ⟨-, h⟩ | ⟨-, h⟩
    · show CasTable.Later _ ((w.casMapping s' m).2.stores s).impus
      rw [h, (setMappings_later (.put _ _ _)).2]
      exact .refl _
    · show CasTable.Later _ ((w.casMapping s' m).2.stores s).impus
      rw [h]
      exact .refl _
  | deleteImpiMapping s' m =>
    show CasTable.Later _ ((w.setMappings s' _).stores s).impus
    rw [(setMappings_later (.erase _ _)).2]
    exact .refl _

/-- Every call moves the `impi_mapping` table of every store forward. -/
theorem serve_later_mappings (o : Call) (w : World) (s : StoreId) :
    CasTable.Later (w.stores s).mappings ((serve o w).2.stores s).mappings := by
  -- A write of an IMPU leaves the mappings as they are.
  have himpus : ∀ s' t, CasTable.Later (w.stores s').impus t →
      CasTable.Later (w.stores s).mappings ((w.setImpus s' t).stores s).mappings := by
    intro s' t ht
    rw [(setImpus_later ht).2]
    exact .refl _
  have hcas : ∀ s' impu cas,
      CasTable.Later (w.stores s).mappings ((w.casImpu s' impu cas).2.stores s).mappings := by
    intro s' impu cas
    rcases casImpu_cases w s' impu cas with ⟨-, h⟩ | ⟨-, h⟩
    · rw [h]
      exact himpus _ _ (.put _ _ _)
    · rw [h]
      exact .refl _
  cases o with
  | getImpu s' impu => exact .refl _
  | getImpiMapping s' impi => exact .refl _
  | time => exact .refl _
  | progressCb => exact .refl _
  | setImpu s' impu => exact hcas s' impu impu.cas
  | setImpuWithoutCas s' impu => exact himpus _ _ (.put _ _ _)
  | addImpu s' impu => exact hcas s' impu 0
  | deleteImpu s' impu => exact himpus _ _ (.erase _ _)
  | setImpiMapping s' m =>
    show CasTable.Later _ ((w.casMapping s' m).2.stores s).mappings
    rcases casMapping_cases w s' m with ⟨-, h⟩ | ⟨-, h⟩
    · rw [h]
      exact (setMappings_later (.put _ _ _)).1
    · rw [h]
      exact .refl _
  | deleteImpiMapping s' m => exact (setMappings_later (.erase _ _)).1

/-- The key of the `impu` table that a call writes or deletes. -/
def Call.impuKey : Call → Option (StoreId × String)
  | .setImpu s impu => some (s, impu.impu)
  | .setImpuWithoutCas s impu => some (s, impu.impu)
  | .addImpu s impu => some (s, impu.impu)
  | .deleteImpu s impu => some (s, impu.impu)
  | _ => none

/-- The key of the `impi_mapping` table that a call writes or deletes. -/
def Call.mappingKey : Call → Option (StoreId × String)
  | .setImpiMapping s m => some (s, m.impi)
  | .deleteImpiMapping s m => some (s, m.impi)
  | _ => none

theorem Call.IsRead.keys {o : Call} (h : o.IsRead) : o.impuKey = none ∧ o.mappingKey = none := by
  cases o with
  | getImpu s impu => exact ⟨rfl, rfl⟩
  | getImpiMapping s impi => exact ⟨rfl, rfl⟩
  | time => exact ⟨rfl, rfl⟩
  | progressCb => exact ⟨rfl, rfl⟩
  | setImpu s impu => exact h.elim
  | setImpuWithoutCas s impu => exact h.elim
  | addImpu s impu => exact h.elim
  | deleteImpu s impu => exact h.elim
  | setImpiMapping s m => exact h.elim
  | deleteImpiMapping s m => exact h.elim

theorem setImpus_cells_of_ne {w : World} {s s' : StoreId} {k k' : String}
    {t : CasTable String (Blob ImpuData)}
    (ht : ∀ k, k ≠ k' → t.cells k = (w.stores s').impus.cells k)
    (h : some (s', k') ≠ some (s, k)) :
    ((w.setImpus s' t).stores s).impus.cells k = (w.stores s).impus.cells k := by
  by_cases hs : s = s'
  · subst hs
    rw [World.setImpus_stores_self]
    exact ht k fun hk => h (by rw [hk])
  · rw [w.setImpus_stores_ne t hs]

/-- A call leaves the records under all keys but its own. -/
theorem serve_impus_cells {o : Call} {s : StoreId} {k : String} (w : World)
    (h : o.impuKey ≠ some (s, k)) :
    ((serve o w).2.stores s).impus.cells k = (w.stores s).impus.cells k := by
  have hcas : ∀ s' impu cas, some (s', Impu.impu impu) ≠ some (s, k) →
      ((w.casImpu s' impu cas).2.stores s).impus.cells k = (w.stores s).impus.cells k := by
    intro s' impu cas hne
    rcases casImpu_cases w s' impu cas with ⟨-, heq⟩ | ⟨-, heq⟩
    · rw [heq]
      exact setImpus_cells_of_ne (fun k hk => CasTable.put_cells_ne _ _ hk) hne
    · rw [heq]
  cases o with
  | getImpu s' impu => rfl
  | getImpiMapping s' impi => rfl
  | time => rfl
  | progressCb => rfl
  | setImpu s' impu => exact hcas s' impu impu.cas h
  | setImpuWithoutCas s' impu =>
    exact setImpus_cells_of_ne (fun k hk => CasTable.put_cells_ne _ _ hk) h
  | addImpu s' impu => exact hcas s' impu 0 h
  | deleteImpu s' impu => exact setImpus_cells_of_ne (fun k hk => CasTable.erase_cells_ne _ hk) h
  | setImpiMapping s' m =>
    show ((w.casMapping s' m).2.stores s).impus.cells k = _
    rcases casMapping_cases w s' m with ⟨-, heq⟩ | ⟨-, heq⟩
    · rw [heq, (setMappings_later (.put _ _ _)).2]
    · rw [heq]
  | deleteImpiMapping s' m =>
    show ((w.setMappings s' _).stores s).impus.cells k = _
    rw [(setMappings_later (.erase _ _)).2]

/-- The default IMPU under a key that a write has just set. -/
theorem defaultAt_setImpus_put (w : World) (s : StoreId) (k : String) (d : DefaultImpuData) :
    ((w.setImpus s ((w.stores s).impus.put k (.decoded (.default d)))).stores s).defaultAt k
      = some d := by
  rw [World.setImpus_stores_self, ImpuStore.defaultAt_eq_some]
  exact CasTable.put_value?_self _ _ _

theorem setMappings_cells_of_ne {w : World} {s s' : StoreId} {k k' : String}
    {t : CasTable String (Blob MappingData)}
    (ht : ∀ k, k ≠ k' → t.cells k = (w.stores s').mappings.cells k)
    (h : some (s', k') ≠ some (s, k)) :
    ((w.setMappings s' t).stores s).mappings.cells k = (w.stores s).mappings.cells k := by
  by_cases hs : s = s'
  · subst hs
    rw [World.setMappings_stores_self]
    exact ht k fun hk => h (by rw [hk])
  · rw [w.setMappings_stores_ne t hs]

/-- A call leaves the mappings under all keys but its own. -/
theorem serve_mappings_cells {o : Call} {s : StoreId} {k : String} (w : World)
    (h : o.mappingKey ≠ some (s, k)) :
    ((serve o w).2.stores s).mappings.cells k = (w.stores s).mappings.cells k := by
  have himpus : ∀ s' t, CasTable.Later (w.stores s').impus t →
      ((w.setImpus s' t).stores s).mappings.cells k = (w.stores s).mappings.cells k := by
    intro s' t ht
    rw [(setImpus_later ht).2]
  have hcas : ∀ s' impu cas,
      ((w.casImpu s' impu cas).2.stores s).mappings.cells k = (w.stores s).mappings.cells k := by
    intro s' impu cas
    rcases casImpu_cases w s' impu cas with ⟨-, heq⟩ | ⟨-, heq⟩
    · rw [heq]
      exact himpus _ _ (.put _ _ _)
    · rw [heq]
  cases o with
  | getImpu s' impu => rfl
  | getImpiMapping s' impi => rfl
  | time => rfl
  | progressCb => rfl
  | setImpu s' impu => exact hcas s' impu impu.cas
  | setImpuWithoutCas s' impu => exact himpus _ _ (.put _ _ _)
  | addImpu s' impu => exact hcas s' impu 0
  | deleteImpu s' impu => exact himpus _ _ (.erase _ _)
  | setImpiMapping s' m =>
    show ((w.casMapping s' m).2.stores s).mappings.cells k = _
    rcases casMapping_cases w s' m with ⟨-, heq⟩ | ⟨-, heq⟩
    · rw [heq]
      exact setMappings_cells_of_ne (fun k hk => CasTable.put_cells_ne _ _ hk) h
    · rw [heq]
  | deleteImpiMapping s' m =>
    exact setMappings_cells_of_ne (fun k hk => CasTable.erase_cells_ne _ hk) h

/-- The world whose store 0 holds the given records and mappings. It is for concrete runs. -/
def World.ofTables (records : List (String × ImpuData)) (mappings : List (String × MappingData)) :
    World where
  stores _ :=
    { impus := records.foldl (fun t r => t.put r.1 (.decoded r.2)) .empty
      mappings := mappings.foldl (fun t m => t.put m.1 (.decoded m.2)) .empty }
  clock _ := 0

end Homestead

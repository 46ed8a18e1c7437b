import Homestead.Lib.Monitor
import Homestead.Proofs.Concurrent

/-!
# `Homestead.Proofs.MappingShape`: the default IMPUs of a stored mapping

Any number of clients run `update_irs_impi_mappings`, for any IRSs and on any stores, interleaved
call by call. On a store whose `impi_mapping` table was empty, the default IMPUs of every mapping
are a list without duplicates that is not empty (`mappings_well_shaped`).

Each loop decides on the mapping that it has read (`has_default_impu`, `is_empty`) and writes a
mapping made from that one, so its writes are well shaped when its reads were. `shapeMonitor` says
this of a client alone, whatever it is answered, and `MappingsShaped` is the invariant of the store
that closes the circle.
-/

set_option autoImplicit false

namespace Homestead

open CacheProg

/-- The default IMPUs are a list that `update_irs_impi_mappings` may store. -/
def WellShaped (defaultImpus : List String) : Prop := defaultImpus ≠ [] ∧ defaultImpus.Nodup

instance (defaultImpus : List String) : Decidable (WellShaped defaultImpus) :=
  inferInstanceAs (Decidable (_ ∧ _))

/-! ### The mappings that the loops write -/

theorem wellShaped_new (impi impu : String) (expiry : Int) :
    WellShaped (ImpiMapping.new impi impu expiry).defaultImpus := by
  simp [WellShaped, ImpiMapping.new]

theorem WellShaped.add {m : ImpiMapping} {impu : String} (h : WellShaped m.defaultImpus)
    (hnew : m.hasDefaultImpu impu = false) : WellShaped (m.addDefaultImpu impu).defaultImpus := by
  have hmem : impu ∉ m.defaultImpus := of_decide_eq_false hnew
  refine ⟨by simp [ImpiMapping.addDefaultImpu], ?_⟩
  refine List.nodup_append.mpr ⟨h.2, List.nodup_singleton _, ?_⟩
  intro a ha b hb heq
  rw [List.mem_singleton.mp hb] at heq
  exact hmem (heq ▸ ha)

/-- What is left of a mapping is written only when it is not empty. -/
theorem WellShaped.remove {m : ImpiMapping} {impu : String} (h : WellShaped m.defaultImpus)
    (hrest : (m.removeDefaultImpu impu).isEmpty = false) :
    WellShaped (m.removeDefaultImpu impu).defaultImpus := by
  constructor
  · intro hnil
    rw [ImpiMapping.isEmpty, hnil] at hrest
    cases hrest
  · exact h.2.filter _

theorem wellShaped_refreshedMapping (irs : Irs) (impi : String) (now : Int)
    {found : Status × Option ImpiMapping} (h : ∀ m, found.2 = some m → WellShaped m.defaultImpus) :
    WellShaped (refreshedMapping irs impi now found).defaultImpus := by
  unfold refreshedMapping
  split
  · rename_i m
    have hm := h m rfl
    dsimp only
    split
    · exact hm
    · rename_i hnew
      exact WellShaped.add (m := m.setExpiry _) hm (Bool.eq_false_iff.mpr hnew)
  · exact wellShaped_new _ _ _

theorem wellShaped_resolveMapping (irs : Irs) (now : Int) {m : ImpiMapping}
    (h : WellShaped m.defaultImpus) :
    WellShaped (resolveMapping irs now m).mapping.defaultImpus := by
  unfold resolveMapping
  dsimp only
  split
  · exact h
  · rename_i hnew
    exact WellShaped.add (m := m.setExpiry _) h (Bool.eq_false_iff.mpr hnew)

/-! ### One client -/

section

variable (s : StoreId)

/-- A mapping that a call reads from the store `s` is well shaped. -/
def ReadsShaped : Event Call Call.Resp → Prop
  | ⟨.getImpiMapping s' _, (r : Status × Option ImpiMapping)⟩ =>
    s' = s → ∀ m, r.2 = some m → WellShaped m.defaultImpus
  | _ => True

/-- A mapping that a call writes to the store `s` is well shaped. -/
def WritesShaped : Call → Prop
  | .setImpiMapping s' m => s' = s → WellShaped m.defaultImpus
  | _ => True

/-- The state is that all reads were well shaped. A client that has read a mapping of another
shape may do anything. -/
def shapeMonitor : Monitor Call Call.Resp Prop where
  permits shaped o := shaped → WritesShaped s o
  step shaped e := shaped ∧ ReadsShaped s e

end

variable {s s' : StoreId} {irs : Irs} {impi : String} {shaped : Prop}

theorem shapeMonitor_after {hs : History} (h : ∀ e ∈ hs, ReadsShaped s e) :
    (shapeMonitor s).after True hs := by
  suffices key : ∀ shaped : Prop, shaped → (shapeMonitor s).after shaped hs from key True trivial
  induction hs with
  | nil => exact fun shaped hshaped => hshaped
  | cons e hs ih =>
    intro shaped hshaped
    exact ih (fun e he => h e (List.mem_cons_of_mem _ he)) _ ⟨hshaped, h e List.mem_cons_self⟩

theorem shaped_removeMapping (status : Status) :
    (shapeMonitor s).Keeps (fun _ _ => True) shaped (removeMapping irs s' impi status) := by
  refine Monitor.Keeps.loop (fun _ _ => True) ?_ trivial
  intro status shaped _
  simp only [ite_self]
  refine .call fun r => ⟨fun _ => trivial, ?_⟩
  rcases r with ⟨_ | _ | _ | _, _ | m⟩
  case ok.some =>
    show Monitor.Keeps _ _ _ (if m.hasDefaultImpu irs.defaultImpu then
      if (m.removeDefaultImpu irs.defaultImpu).isEmpty then
        deleteImpiMapping s' (m.removeDefaultImpu irs.defaultImpu)
      else setImpiMapping s' (m.removeDefaultImpu irs.defaultImpu)
      else pure status)
    split
    · split
      · exact .call fun r => ⟨fun _ => trivial, .ret trivial⟩
      · rename_i hrest
        refine .call fun r => ⟨fun hshaped hs => ?_, .ret trivial⟩
        exact (hshaped.2 hs m rfl).remove (Bool.eq_false_iff.mpr hrest)
    · exact .ret trivial
  all_goals exact .ret trivial

theorem shaped_refreshMapping (status : Status) :
    (shapeMonitor s).Keeps (fun _ _ => True) shaped (refreshMapping irs s' impi status) := by
  refine Monitor.Keeps.loop (fun _ _ => True) ?_ trivial
  intro status shaped _
  simp only [ite_self]
  refine .call fun found => ⟨fun _ => trivial, ?_⟩
  refine .call fun now => ⟨fun _ => trivial, ?_⟩
  refine .call fun r => ⟨fun hshaped hs => ?_, .ret trivial⟩
  exact wellShaped_refreshedMapping irs impi now (hshaped.1.2 hs)

/-- The mapping that the loop carries is well shaped before every pass: it is the new one, or one
that was resolved against what a conflict has shown. -/
theorem shaped_addMapping (status : Status) :
    (shapeMonitor s).Keeps (fun _ _ => True) shaped (addMapping irs s' impi status) := by
  refine .call fun (now : Int) => ⟨fun _ => trivial, ?_⟩
  suffices hloop : (shapeMonitor s).Keeps (fun _ _ => True) _
      (Prog.loop (addMappingPass irs s' impi) (fun st => st.status.isContention)
        { status := status, mapping := .new impi irs.defaultImpu (now + irs.ttl) }) from
    hloop.bind fun _ _ _ => .ret trivial
  refine Monitor.Keeps.loop
    (fun st shaped => s' = s → shaped → WellShaped st.mapping.defaultImpus) ?_
    fun _ _ => wellShaped_new _ _ _
  intro st shaped hst
  have hpost : ∀ (st' : AddMappingState) (shaped' : Prop),
      (s' = s → shaped' → WellShaped st'.mapping.defaultImpus) →
      if st'.status.isContention then
        s' = s → shaped' → WellShaped st'.mapping.defaultImpus else True := by
    intro st' shaped' h
    split
    · exact h
    · trivial
  refine .call fun r => ⟨fun hshaped hs => hst hs hshaped, ?_⟩
  cases r with
  | dataContention =>
    refine .call fun found => ⟨fun _ => trivial, ?_⟩
    rcases found with ⟨_ | _ | _ | _, _ | m⟩
    case ok.some =>
      refine .call fun now => ⟨fun _ => trivial, .ret (hpost _ _ fun hs hshaped => ?_)⟩
      exact wellShaped_resolveMapping irs now (hshaped.1.2 hs m rfl)
    -- Without a mapping to resolve, the next pass tries the same one again.
    all_goals exact .ret (hpost _ _ fun hs hshaped => hst hs hshaped.1.1)
  | ok => exact .ret (hpost _ _ fun hs hshaped => hst hs hshaped.1)
  | notFound => exact .ret (hpost _ _ fun hs hshaped => hst hs hshaped.1)
  | error => exact .ret (hpost _ _ fun hs hshaped => hst hs hshaped.1)

theorem shaped_updateIrsImpiMappings :
    (shapeMonitor s).Keeps (fun _ _ => True) shaped (updateIrsImpiMappings irs s') := by
  rw [updateIrsImpiMappings_eq]
  refine .bind (.forEach (fun _ _ => True) (fun impi status shaped _ => ?_) trivial) ?_
  · exact shaped_removeMapping status
  intro status shaped _
  refine .bind (Q := fun _ _ => True) ?_ ?_
  · split
    · exact .forEach _ (fun impi status shaped _ => shaped_refreshMapping status) trivial
    · exact .ret trivial
  · intro status shaped _
    exact .forEach _ (fun impi status shaped _ => shaped_addMapping status) trivial

/-! ### All clients -/

/-- A client that runs `update_irs_impi_mappings` for one IRS after the other. -/
def updateMappings (jobs : List (Irs × StoreId)) : CacheProg Status :=
  Prog.forEach jobs (fun job _ => updateIrsImpiMappings job.1 job.2) .ok

/-- Every mapping of the store decodes and is well shaped. -/
def MappingsShaped (s : StoreId) (w : World) : Prop :=
  ∀ impi b, (w.stores s).mappings.value? impi = some b →
    ∃ data, b = .decoded data ∧ WellShaped data.defaultImpus

/-- What is read from the store is well shaped. -/
theorem MappingsShaped.reads {w : World} (h : MappingsShaped s w) (o : Call) :
    ReadsShaped s ⟨o, (serve o w).1⟩ := by
  cases o with
  | getImpiMapping s' impi =>
    rintro rfl m hm
    have hfound := (ImpuStore.isAnswer_getImpiMapping (w.stores s') impi).eq_of_snd hm
    obtain ⟨cas, data, hcell, rfl⟩ := ImpuStore.cells_of_getImpiMapping hfound
    obtain ⟨data', hdata, hshaped⟩ := h impi _ (CasTable.value?_of_cells hcell)
    cases hdata
    exact hshaped
  | _ => trivial

/-- A call whose write is well shaped keeps the mappings well shaped. -/
theorem MappingsShaped.step {w : World} (h : MappingsShaped s w) {o : Call}
    (ho : WritesShaped s o) : MappingsShaped s (serve o w).2 := by
  intro impi b hb
  by_cases hkey : o.mappingKey = some (s, impi)
  · cases o with
    | setImpiMapping s' m =>
      obtain ⟨rfl, rfl⟩ : s' = s ∧ m.impi = impi := by simpa [Call.mappingKey] using hkey
      rcases serve_setImpiMapping_cases w s' m with ⟨-, -, hw⟩ | ⟨-, -, hw⟩
      · rw [hw, World.setMappings_stores_self, CasTable.put_value?_self, Option.some.injEq] at hb
        exact ⟨m.toData, hb.symm, ho rfl⟩
      · rw [hw] at hb
        exact h _ _ hb
    | deleteImpiMapping s' m =>
      obtain ⟨rfl, rfl⟩ : s' = s ∧ m.impi = impi := by simpa [Call.mappingKey] using hkey
      have hgone : ((serve (.deleteImpiMapping s' m) w).2.stores s').mappings
          = (w.stores s').mappings.erase m.impi := by simp [serve]
      rw [hgone, CasTable.erase_value?_self] at hb
      cases hb
    | _ => cases hkey
  · have hsame := serve_mappings_cells w hkey
    rw [CasTable.value?, hsame] at hb
    exact h impi b hb

/-- Any number of clients run `update_irs_impi_mappings` for any IRSs, one after the other, on any
stores and in any interleaving of their calls. On a store that had no mapping, every mapping that
is ever stored, and every one that a client ever tries to store, has a list of default IMPUs that is
not empty and has no duplicates. -/
theorem mappings_well_shaped {ι : Type} [DecidableEq ι] (jobs : ι → List (Irs × StoreId))
    (w : World) (s : StoreId) (hempty : ∀ impi, (w.stores s).mappings.value? impi = none)
    (is : List ι) :
    let c := Pool.run serve is (.start w fun i => updateMappings (jobs i))
    MappingsShaped s c.world ∧
      ∀ i m r, (i, ⟨.setImpiMapping s m, r⟩) ∈ c.trace → WellShaped m.defaultImpus := by
  intro c
  have hprog : ∀ i, (shapeMonitor s).Keeps (fun _ _ => True) True (updateMappings (jobs i)) :=
    fun i => .forEach _ (fun job status shaped _ => shaped_updateIrsImpiMappings) trivial
  have hinv : MappingsShaped s c.world ∧
      ∀ i e, (i, e) ∈ c.trace → ReadsShaped s e ∧ WritesShaped s e.1 := by
    refine (Monitor.Keeps.sound (M := fun _ => shapeMonitor s) hprog
      (J := fun w tr => MappingsShaped s w ∧
        ∀ i e, (i, e) ∈ tr → ReadsShaped s e ∧ WritesShaped s e.1) ⟨?_, nofun⟩ ?_ is).inv
    · intro impi b hb
      rw [hempty impi] at hb
      cases hb
    · rintro i w tr o ⟨hw, htr⟩ hpermits
      -- The client has read well shaped mappings only, so it may only write such a one.
      have hwrites : WritesShaped s o :=
        hpermits (shapeMonitor_after fun e he => (htr i e (Pool.mem_histOf.mp he)).1)
      refine ⟨hw.step hwrites, ?_⟩
      intro j e he
      rcases List.mem_append.mp he with he | he
      · exact htr j e he
      · obtain ⟨rfl, rfl⟩ := Prod.mk.inj (List.mem_singleton.mp he)
        exact ⟨hw.reads o, hwrites⟩
  exact ⟨hinv.1, fun i m r he => (hinv.2 i _ he).2 rfl⟩

/-- A new IRS for `D` with the IMPI that it shares with another one. -/
def sharingIrs (D : String) : Irs :=
  ({ Irs.new 300 .registered with defaultImpu := D }).addAssociatedImpi "impi@example.com"

/-- Two clients add the mapping of one IMPI at once. The second one meets a conflict, and adds its
default IMPU to what the first one has stored. -/
theorem mappings_well_shaped_race :
    let c := Pool.run serve
      (List.replicate 3 false ++ List.replicate 9 true ++ List.replicate 9 false)
      (.start (.ofTables [] []) fun second => updateMappings
        [(sharingIrs (if second then "sip:two" else "sip:one"), 0)])
    (c.world.stores 0).mappings.value? "impi@example.com"
        = some (.decoded { defaultImpus := ["sip:one", "sip:two"], expiry := 300 }) ∧
      MappingsShaped 0 c.world :=
  ⟨by decide, (mappings_well_shaped _ _ 0 (fun _ => rfl) _).1⟩

end Homestead

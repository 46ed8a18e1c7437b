import Homestead.Lib.Can
import Homestead.Lib.Monitor
import Homestead.Proofs.FailedPut

/-!
# `Homestead.Proofs.MappingKeys`: the IMPIs whose mappings a put may write

The put of a refreshed IRS goes over the IMPIs of the IRS and writes a mapping for each. A merge
with a stored record may add the IMPIs that the record lists. `mayMap_put_iff` says that these are
the IMPIs whose mappings some run of the put writes, and no others.

The two directions are about different runs. That nothing else is written holds of every run
(`mapped_put`), and that each of them is written holds of a run whose answers are chosen for it
(`canCall_putIrsAction`).
-/

set_option autoImplicit false

namespace Homestead

open CacheProg

/-- An answer of a store whose records list only IMPIs in `S`. A mapping is under its own IMPI. -/
def AnsweredFrom (S : String → Prop) : Event Call Call.Resp → Prop
  | ⟨.getImpu _ _, (r : Status × Option Impu)⟩ =>
    ∀ d, r.2 = some (.default d) → ∀ impi ∈ d.impis, S impi
  | ⟨.getImpiMapping _ impi, (r : Status × Option ImpiMapping)⟩ =>
    ∀ m, r.2 = some m → m.impi = impi
  | _ => True

/-- The call writes or deletes the mapping of `impi` on some store. -/
def Call.WritesMapping (impi : String) (o : Call) : Prop := ∃ s, o.mappingKey = some (s, impi)

/-- Some run of the program, with such answers, writes or deletes the mapping of `impi`. -/
def MayMap {α : Type} (S : String → Prop) (p : CacheProg α) (impi : String) : Prop :=
  CanCall (AnsweredFrom S) (Call.WritesMapping impi) p

/-! ### Only these mappings -/

/-- The IMPIs of the IRS are in `K`, and those that a merge may add. -/
structure Covers (S K : String → Prop) (irs : Irs) : Prop where
  impis : ∀ (impi : String) (state : State), irs.impis[impi]? = some state → K impi
  merged : irs.existing = true → ∀ impi, S impi → K impi

theorem Covers.merge {S K : String → Prop} {irs : Irs} (h : Covers S K irs)
    (hexisting : irs.existing = true) {d : DefaultImpu} (hd : ∀ impi ∈ d.impis, S impi) (now : Int) :
    Covers S K (irs.updateFromImpuFromStore d now) where
  impis impi state hstate := by
    have hmerged : (irs.impis.mergeDataSets d.impis)[impi]? = some state := hstate
    rw [Data.getElem?_mergeDataSets] at hmerged
    cases hirs : irs.impis[impi]? with
    | some state => exact h.impis impi state hirs
    | none =>
      by_cases hmem : impi ∈ d.impis
      · exact h.merged hexisting impi (hd impi hmem)
      · simp [hirs, hmem] at hmerged
  merged := h.merged

/-- `create_irs_impu` and `update_irs_associated_impus` write no mapping. -/
theorem only_createIrsImpu_mapping {irs : Irs} {s : StoreId} :
    Only (fun o => o.mappingKey = none) (createIrsImpu irs s) := by
  refine .call rfl fun now => ?_
  show Only _ (if irs.registrationState = .registered then _ else _)
  split
  · exact .call rfl fun _ => .ret _
  · refine .call rfl fun (status : Status) => ?_
    show Only _ (if status = .dataContention then _ else _)
    split <;> exact .ret _

theorem only_updateIrsAssociatedImpus_mapping {irs : Irs} {s : StoreId} :
    Only (fun o => o.mappingKey = none) (updateIrsAssociatedImpus irs s) := by
  have hwrite : ∀ impu status,
      Only (fun o => o.mappingKey = none) (writeAssociatedImpu irs s impu status) :=
    fun impu status => .call rfl fun now => .call rfl fun _ => .ret _
  have hremove : ∀ impu status,
      Only (fun o => o.mappingKey = none) (removeAssociatedImpuPass irs s impu status) := by
    intro impu status
    refine .call rfl fun found => ?_
    obtain ⟨status', _ | d | a⟩ := found
    · exact .ret _
    · exact .ret _
    · show Only _ (if a.defaultImpu = irs.defaultImpu then _ else _)
      split
      · exact .call rfl fun _ => .ret _
      · exact .ret _
  rw [updateIrsAssociatedImpus_eq]
  refine .bind (.forEach (fun impu _ => .loop (hremove impu)) _) fun status =>
    .bind ?_ fun status => .forEach (fun impu _ => hwrite impu) _
  split
  · exact .forEach (fun impu _ => hwrite impu) _
  · exact .ret _

section Only

variable (S K : String → Prop)

/-- The state is that every answer was one of `AnsweredFrom`. A client that has got another answer
may do anything. -/
def mappedMonitor : Monitor Call Call.Resp Prop where
  permits ok o := ok → ∀ impi, o.WritesMapping impi → K impi
  step ok e := ok ∧ AnsweredFrom S e

variable {S K} {irs : Irs} {s : StoreId} {impi : String} {ok : Prop} {α : Type}

theorem mappedMonitor_after {hs : History} (h : ∀ e ∈ hs, AnsweredFrom S e) :
    (mappedMonitor S K).after True hs := by
  suffices key : ∀ ok : Prop, ok → (mappedMonitor S K).after ok hs from key True trivial
  induction hs with
  | nil => exact fun ok hok => hok
  | cons e hs ih =>
    intro ok hok
    exact ih (fun e he => h e (List.mem_cons_of_mem _ he)) _ ⟨hok, h e List.mem_cons_self⟩

/-- A call that is no write of a mapping. -/
theorem mapped_call {Q : α → Prop → Prop} {o : Call} (ho : o.mappingKey = none)
    {k : o.Resp → CacheProg α}
    (hk : ∀ r, (mappedMonitor S K).Keeps Q (ok ∧ AnsweredFrom S ⟨o, r⟩) (k r)) :
    (mappedMonitor S K).Keeps Q ok (.call o k) := by
  refine .call fun r => ⟨fun _ impi hwrites => ?_, hk r⟩
  obtain ⟨s, hkey⟩ := hwrites
  rw [ho] at hkey
  cases hkey

/-- A write of the mapping of `impi`, which ends a pass. -/
theorem mapped_write {o : Call} (ho : o.mappingKey = some (s, impi)) {k : o.Resp → CacheProg α}
    (hK : ok → K impi) {Q : α → Prop → Prop}
    (hk : ∀ r, (mappedMonitor S K).Keeps Q (ok ∧ AnsweredFrom S ⟨o, r⟩) (k r)) :
    (mappedMonitor S K).Keeps Q ok (.call o k) := by
  refine .call fun r => ⟨fun hok impi' hwrites => ?_, hk r⟩
  obtain ⟨s', hkey⟩ := hwrites
  rw [ho] at hkey
  obtain ⟨-, rfl⟩ := Prod.mk.inj (Option.some.inj hkey)
  exact hK hok

/-- Each loop keeps what was known before it. -/
theorem ite_of_both {P : Prop} {ok : Prop} (again : Bool) (h : ok → P) :
    if again then ok → P else ok → P := by
  split <;> exact h

variable {P : Prop}

theorem mapped_removeMapping (hK : P → K impi) (status : Status) (hok : ok → P) :
    (mappedMonitor S K).Keeps (fun _ ok' => ok' → P) ok (removeMapping irs s impi status) := by
  refine Monitor.Keeps.loop (fun _ ok => ok → P) ?_ hok
  intro status ok hok
  refine mapped_call rfl fun r => ?_
  rcases r with ⟨_ | _ | _ | _, _ | m⟩
  case ok.some =>
    show Monitor.Keeps _ _ _ (if m.hasDefaultImpu irs.defaultImpu then
      if (m.removeDefaultImpu irs.defaultImpu).isEmpty then
        deleteImpiMapping s (m.removeDefaultImpu irs.defaultImpu)
      else setImpiMapping s (m.removeDefaultImpu irs.defaultImpu)
      else pure status)
    -- The mapping that was found is the one of the IMPI.
    have hkey : (ok ∧ AnsweredFrom S ⟨.getImpiMapping s impi, (Status.ok, some m)⟩) → K m.impi := by
      rintro ⟨hfirst, hm⟩
      rw [hm m rfl]
      exact hK (hok hfirst)
    split
    · split
      · exact mapped_write (o := .deleteImpiMapping s (m.removeDefaultImpu irs.defaultImpu)) rfl hkey
          fun r => .ret (ite_of_both _ fun h => hok h.1.1)
      · exact mapped_write (o := .setImpiMapping s (m.removeDefaultImpu irs.defaultImpu)) rfl hkey
          fun r => .ret (ite_of_both _ fun h => hok h.1.1)
    · exact .ret (ite_of_both _ fun h => hok h.1)
  all_goals exact .ret (ite_of_both _ fun h => hok h.1)

theorem mapped_refreshMapping (hK : P → K impi) (status : Status) (hok : ok → P) :
    (mappedMonitor S K).Keeps (fun _ ok' => ok' → P) ok (refreshMapping irs s impi status) := by
  refine Monitor.Keeps.loop (fun _ ok => ok → P) ?_ hok
  intro status ok hok
  refine mapped_call rfl fun (r : Status × Option ImpiMapping) => mapped_call rfl fun (now : Int) => ?_
  have hkey : AnsweredFrom S ⟨.getImpiMapping s impi, r⟩ →
      (refreshedMapping irs impi now r).impi = impi := by
    intro hr
    unfold refreshedMapping
    split
    · rename_i m
      dsimp only
      split <;> exact hr m rfl
    · rfl
  refine mapped_write (s := s) rfl ?_ fun r => .ret (ite_of_both _ fun h => hok h.1.1.1)
  rintro ⟨⟨hfirst, hr⟩, -⟩
  rw [hkey hr]
  exact hK (hok hfirst)

theorem mapped_addMapping (hK : P → K impi) (status : Status) (hok : ok → P) :
    (mappedMonitor S K).Keeps (fun _ ok' => ok' → P) ok (addMapping irs s impi status) := by
  refine mapped_call rfl fun (now : Int) => ?_
  suffices hloop : (mappedMonitor S K).Keeps (fun _ ok' => ok' → P) _
      (Prog.loop (addMappingPass irs s impi) (fun st => st.status.isContention)
        { status := status, mapping := .new impi irs.defaultImpu (now + irs.ttl) }) from
    hloop.bind fun st ok' hst => .ret hst
  refine Monitor.Keeps.loop (fun st ok => ok → P ∧ st.mapping.impi = impi) ?_
    fun h => ⟨hok h.1, rfl⟩
  intro st ok hst
  have hpost : ∀ (st' : AddMappingState) (ok' : Prop), (ok' → P ∧ st'.mapping.impi = impi) →
      if st'.status.isContention then ok' → P ∧ st'.mapping.impi = impi else ok' → P := by
    intro st' ok' h
    split
    · exact h
    · exact fun hok' => (h hok').1
  have hwrite : ok → K st.mapping.impi := by
    intro hok
    rw [(hst hok).2]
    exact hK (hst hok).1
  refine mapped_write (s := s) rfl hwrite fun r => ?_
  cases r with
  | dataContention =>
    refine mapped_call rfl fun found => ?_
    rcases found with ⟨_ | _ | _ | _, _ | m⟩
    case ok.some =>
      refine mapped_call rfl fun now => .ret (hpost _ _ ?_)
      rintro ⟨⟨⟨hfirst, -⟩, hm⟩, -⟩
      refine ⟨(hst hfirst).1, ?_⟩
      have hkey : m.impi = impi := hm m rfl
      unfold resolveMapping
      dsimp only
      split <;> exact hkey
    -- Without a mapping to resolve, the next pass tries the same one again.
    all_goals exact .ret (hpost _ _ fun h => hst h.1.1)
  | ok => exact .ret (hpost _ _ fun h => hst h.1)
  | notFound => exact .ret (hpost _ _ fun h => hst h.1)
  | error => exact .ret (hpost _ _ fun h => hst h.1)

theorem mapped_updateIrsImpiMappings (hok : ok → Covers S K irs) :
    (mappedMonitor S K).Keeps (fun _ ok' => ok' → Covers S K irs) ok
      (updateIrsImpiMappings irs s) := by
  have hK : ∀ {state impi}, impi ∈ irs.impisIn state → Covers S K irs → K impi :=
    fun hmem h => h.impis _ _ (Data.mem_elementsInState.mp hmem)
  rw [updateIrsImpiMappings_eq]
  refine .bind (.forEach_mem (fun _ ok => ok → Covers S K irs)
    (fun impi hmem status ok hok => mapped_removeMapping (hK hmem) status hok) hok) ?_
  intro status ok hok
  refine .bind (Q := fun _ ok => ok → Covers S K irs) ?_ ?_
  · split
    · exact .forEach_mem _
        (fun impi hmem status ok hok => mapped_refreshMapping (hK hmem) status hok) hok
    · exact .ret hok
  · intro status ok hok
    exact .forEach_mem _ (fun impi hmem status ok hok => mapped_addMapping (hK hmem) status hok) hok

theorem mapped_onParts {p : CacheProg α} (hp : Only (fun o => o.mappingKey = none) p)
    (hok : ok → P) : (mappedMonitor S K).Keeps (fun _ ok' => ok' → P) ok p := by
  refine Monitor.Keeps.of_only_inv (I := fun ok => ok → P) hp ?_ hok
  intro ok o ho hok
  refine ⟨fun _ impi hwrites => ?_, fun r (h : ok ∧ _) => hok h.1⟩
  obtain ⟨s, hkey⟩ := hwrites
  rw [ho] at hkey
  cases hkey

/-- The pass that reads the store first, and may merge the record that it finds. -/
theorem mapped_rereadPass (hexisting : irs.existing = true) (hok : ok → Covers S K irs) :
    (mappedMonitor S K).Keeps
      (fun st ok' => st.irs.existing = true ∧ (ok' → Covers S K st.irs)) ok
      (rereadPass .setImpu s irs) := by
  have hwrite : ∀ (irs' : Irs) (cas : Nat) (store : Option StoreId) (ok' : Prop),
      irs'.existing = true → (ok' → Covers S K irs') → (mappedMonitor S K).Keeps
        (fun (st : ImpuActionState) ok' => st.irs.existing = true ∧ (ok' → Covers S K st.irs)) ok'
        (Irs.getImpuFromImpu irs' cas store >>= fun impu => IrsImpuAction.setImpu.apply s impu >>=
          fun status => pure { status := status, irs := irs', impu := none }) :=
    fun irs' cas store ok' hexisting' hok' => mapped_call rfl fun (now : Int) =>
      mapped_call rfl fun (r : Status) => .ret ⟨hexisting', fun h => hok' h.1.1⟩
  refine mapped_call rfl fun (r : Status × Option Impu) => ?_
  obtain ⟨status, _ | d | a⟩ := r
  · exact hwrite irs 0 none _ hexisting fun h => hok h.1
  · show (mappedMonitor S K).Keeps _ _ (irs.mergeFromStore d >>= _)
    unfold Irs.mergeFromStore
    split
    · exact hwrite _ d.cas d.store _ hexisting fun h =>
        (hok h.1).merge hexisting (fun impi himpi => h.2 d rfl impi himpi) 0
    · exact mapped_call rfl fun (now : Int) => hwrite _ d.cas d.store _ hexisting fun h =>
        (hok h.1.1).merge hexisting (fun impi himpi => h.1.2 d rfl impi himpi) now
  · show (mappedMonitor S K).Keeps _ _ (if irs.refreshed then _ else _)
    split
    · exact hwrite irs a.cas a.store _ hexisting fun h => hok h.1
    · exact .ret ⟨hexisting, fun h => hok h.1⟩

theorem mapped_updateIrsImpu (hexisting : irs.existing = true) (hok : ok → Covers S K irs) :
    (mappedMonitor S K).Keeps (fun r ok' => ok' → Covers S K r.2) ok (updateIrsImpu irs s) := by
  have hloop : ∀ impu ok', (ok' → Covers S K irs) →
      (mappedMonitor S K).Keeps (fun r ok' => ok' → Covers S K r.2) ok'
        (Prog.loop (impuActionPass .setImpu s) (fun st => st.status.isContention)
          { status := .ok, irs := irs, impu := impu } >>= fun st => .ret (st.status, st.irs)) := by
    intro impu ok' hok'
    refine .bind (Monitor.Keeps.loop (Q := fun st ok' => ok' → Covers S K st.irs)
      (fun st ok' => st.irs.existing = true ∧ (ok' → Covers S K st.irs)) ?_ ⟨hexisting, hok'⟩)
      fun st ok' hst => .ret hst
    rintro st ok' ⟨hexisting', hok'⟩
    have hpass : (mappedMonitor S K).Keeps
        (fun st ok' => st.irs.existing = true ∧ (ok' → Covers S K st.irs)) ok'
        (impuActionPass .setImpu s st) := by
      unfold impuActionPass
      split
      · exact mapped_call rfl fun (r : Status) => .ret ⟨hexisting', fun h => hok' h.1⟩
      · exact mapped_rereadPass hexisting' hok'
    refine hpass.weaken fun st' ok'' hst' => ?_
    split
    · exact hst'
    · exact hst'.2
  unfold updateIrsImpu performIrsImpuAction Irs.getImpuForStore
  split
  · exact mapped_call rfl fun (now : Int) => hloop _ _ fun h => hok h.1
  · exact hloop none ok hok

/-- `put_irs_action` writes only mappings of `K`. -/
theorem mapped_putIrsAction (hok : ok → Covers S K irs) :
    (mappedMonitor S K).Keeps (fun r ok' => ok' → Covers S K r.2) ok (putIrsAction irs s) := by
  have hput : (mappedMonitor S K).Keeps (fun r ok' => ok' → Covers S K r.2) ok
      (putIrsImpu irs s) := by
    unfold putIrsImpu
    split
    · rename_i hexisting
      exact mapped_updateIrsImpu hexisting hok
    · -- A new IRS is written without a merge.
      exact (mapped_onParts (P := Covers S K irs) only_createIrsImpu_mapping hok).bind
        fun status ok' hok' => .ret hok'
  refine hput.bind fun put ok' hok' => ?_
  show (mappedMonitor S K).Keeps _ ok' (if put.1 = .ok then _ else _)
  split
  · exact (mapped_onParts only_updateIrsAssociatedImpus_mapping hok').bind fun _ ok' hok' =>
      (mapped_updateIrsImpiMappings hok').bind fun _ ok' hok' => .ret hok'
  · exact .ret hok'

/-- The put of an IRS writes only mappings of `K`. -/
theorem mapped_put (cache : MemcachedCache) (hok : ok → Covers S K irs) :
    (mappedMonitor S K).Keeps (fun _ _ => True) ok (cache.putImplicitRegistrationSet irs) := by
  have hremotes : ∀ (irs : Irs) (ok : Prop), (ok → Covers S K irs) →
      (mappedMonitor S K).Keeps (fun _ _ => True) ok
        (Prog.forEach cache.remoteStores (fun store irs => putIrsAction irs store >>= fun inner =>
          pure inner.2) irs >>= fun irs => pure (Status.ok, irs)) := by
    intro irs ok hok
    refine Monitor.Keeps.bind (Q := fun _ _ => True) ?_ fun _ _ _ => .ret trivial
    refine (Monitor.Keeps.forEach (fun irs ok => ok → Covers S K irs) ?_ hok).weaken
      fun _ _ _ => trivial
    intro store irs ok hok
    exact (mapped_putIrsAction hok).bind fun inner ok' hok' => .ret hok'
  unfold MemcachedCache.putImplicitRegistrationSet
  split
  · refine (mapped_putIrsAction hok).bind fun found ok' hok' => ?_
    show (mappedMonitor S K).Keeps _ ok' (if found.1 = .ok then _ else _)
    split
    · exact mapped_call rfl fun (_ : Unit) => hremotes _ _ fun h => hok' h.1
    · exact .ret trivial
  · exact mapped_call rfl fun (_ : Unit) => .ret trivial

end Only

/-- Every mapping that the put writes is under an IMPI of the IRS, or of a record that it found. -/
theorem MayMap.covered {S : String → Prop} {cache : MemcachedCache} {irs : Irs} {impi : String}
    (h : MayMap S (cache.putImplicitRegistrationSet irs) impi) :
    impi ∈ irs.impis ∨ irs.existing = true ∧ S impi := by
  obtain ⟨hs, hbegins, hanswers, e, he, hwrites⟩ := h
  obtain ⟨pre, post, hsplit⟩ := List.append_of_mem he
  let K : String → Prop := fun impi => impi ∈ irs.impis ∨ irs.existing = true ∧ S impi
  have hcovers : Covers S K irs := by
    refine ⟨fun impi state hstate => .inl ?_, fun hexisting impi himpi => .inr ⟨hexisting, himpi⟩⟩
    rw [Std.ExtTreeMap.mem_iff_isSome_getElem?, hstate]
    rfl
  have hput := mapped_put (S := S) (K := K) cache fun (_ : True) => hcovers
  have hpermits := hput.begins hbegins hsplit
  refine hpermits (mappedMonitor_after fun e' he' => hanswers e' ?_) impi hwrites
  rw [hsplit]
  exact List.mem_append_left _ he'

/-! ### Each of these mappings -/

section Each

variable {S : String → Prop} {irs : Irs} {s : StoreId} {impi : String}

/-- The mapping that a read finds, with `D` alone. -/
def foundMapping (impi D : String) : Status × Option ImpiMapping :=
  (.ok, some { impi := impi, cas := 0, expiry := 0, defaultImpus := [D] })

theorem answeredFrom_noMapping (impi : String) :
    AnsweredFrom S ⟨.getImpiMapping s impi, (Status.notFound, (none : Option ImpiMapping))⟩ := nofun

theorem answeredFrom_noImpu (impu : String) :
    AnsweredFrom S ⟨.getImpu s impu, (Status.notFound, (none : Option Impu))⟩ := nofun

theorem can_removeMapping (impi : String) {status : Status} (hstatus : status = .ok) :
    Can (AnsweredFrom S) (fun status => status = Status.ok) (removeMapping irs s impi status) := by
  subst hstatus
  exact .loop_once (.call (Status.notFound, none) (answeredFrom_noMapping impi) (.ret ⟨rfl, rfl⟩))

theorem can_refreshMapping (impi : String) (status : Status) :
    Can (AnsweredFrom S) (fun status => status = Status.ok) (refreshMapping irs s impi status) :=
  .loop_once (.call (Status.notFound, none) (answeredFrom_noMapping impi)
    (.call (0 : Int) trivial (.call Status.ok trivial (.ret ⟨rfl, rfl⟩))))

theorem can_addMapping (impi : String) (status : Status) :
    Can (AnsweredFrom S) (fun status => status = Status.ok) (addMapping irs s impi status) := by
  refine .call (0 : Int) trivial ?_
  have hloop : Can (AnsweredFrom S) (fun st : AddMappingState => st.status = .ok)
      (Prog.loop (addMappingPass irs s impi) (fun st => st.status.isContention)
        { status := status, mapping := .new impi irs.defaultImpu (0 + irs.ttl) }) :=
    .loop_once (.call Status.ok trivial (.ret ⟨rfl, rfl⟩))
  exact hloop.bind fun st hst => .ret hst

/-- Each of the three loops writes the mapping of its IMPIs, when the ones before go well. -/
theorem canCall_updateIrsImpiMappings (hrefreshed : irs.refreshed = true) (hmem : impi ∈ irs.impis) :
    CanCall (AnsweredFrom S) (Call.WritesMapping impi) (updateIrsImpiMappings irs s) := by
  have hremoves : Can (AnsweredFrom S) (fun status => status = Status.ok)
      (Prog.forEach (irs.impisIn .deleted) (removeMapping irs s) .ok) :=
    .forEach (fun impi status hstatus => can_removeMapping impi hstatus) _ rfl
  have hrefreshes : Can (AnsweredFrom S) (fun status => status = Status.ok)
      (Prog.forEach (irs.impisIn .unchanged) (refreshMapping irs s) .ok) :=
    .forEach (fun impi status _ => can_refreshMapping impi status) _ rfl
  rw [updateIrsImpiMappings_eq, hrefreshed]
  obtain ⟨state, hstate⟩ := Option.isSome_iff_exists.mp (Std.ExtTreeMap.mem_iff_isSome_getElem?.mp hmem)
  have hlisted : impi ∈ irs.impisIn state := Data.mem_elementsInState.mpr hstate
  cases state with
  | deleted =>
    -- The mapping has the default IMPU alone, and is deleted.
    refine (CanCall.forEach_mem (I := fun status => status = Status.ok)
      (fun impi status hstatus => can_removeMapping impi hstatus) (fun status _ => ?_) hlisted
      rfl).bind_left _
    refine .loop (.call (foundMapping impi irs.defaultImpu) ?_ ?_)
    · rintro m hm
      rw [← Option.some.inj hm]
    · show CanCall _ _ (if ImpiMapping.hasDefaultImpu _ irs.defaultImpu then _ else _)
      rw [if_pos (by simp [ImpiMapping.hasDefaultImpu]),
        if_pos (by simp [ImpiMapping.removeDefaultImpu, ImpiMapping.isEmpty])]
      exact .here ⟨s, rfl⟩ Status.ok trivial
  | unchanged =>
    refine CanCall.bind_right hremoves fun status hstatus => CanCall.bind_left ?_ _
    exact .forEach_mem (I := fun status => status = Status.ok)
      (fun impi status _ => can_refreshMapping impi status)
      (fun status _ => .loop (.call (Status.notFound, none) (answeredFrom_noMapping impi)
        (.call (0 : Int) trivial (.here ⟨s, rfl⟩ Status.ok trivial)))) hlisted hstatus
  | added =>
    refine CanCall.bind_right hremoves fun status hstatus => ?_
    subst hstatus
    refine CanCall.bind_right hrefreshes fun status hstatus => ?_
    exact .forEach_mem (I := fun status => status = Status.ok)
      (fun impi status _ => can_addMapping impi status)
      (fun status _ => .call (0 : Int) trivial
        ((CanCall.loop (.here ⟨s, rfl⟩ Status.ok trivial)).bind_left _))
      hlisted hstatus

/-- A record of the IRS that lists `impis`. -/
def listingImpis (irs : Irs) (s : StoreId) (impis : List String) : DefaultImpu where
  impu := irs.defaultImpu
  associatedImpus := []
  impis := impis
  registrationState := .registered
  chargingAddresses := {}
  serviceProfile := ""
  cas := 1
  expiry := 0
  store := some s

/-- The first operation goes well, and the IRS then has its own IMPIs and those of `impis`. -/
def Tracks (irs : Irs) (impis : List String) (r : Status × Irs) : Prop :=
  r.1 = .ok ∧ r.2.refreshed = true ∧ ∀ impi, impi ∈ irs.impis ∨ impi ∈ impis → impi ∈ r.2.impis

theorem tracks_merged (hrefreshed : irs.refreshed = true) (impis : List String) :
    Tracks irs impis (.ok, irs.updateFromImpuFromStore (listingImpis irs s impis) 0) := by
  refine ⟨rfl, hrefreshed, fun impi himpi => ?_⟩
  show impi ∈ irs.impis.mergeDataSets impis
  rw [Std.ExtTreeMap.mem_iff_isSome_getElem?] at himpi ⊢
  rw [Data.getElem?_mergeDataSets]
  cases hirs : irs.impis[impi]? with
  | some state => cases state <;> by_cases hmem : impi ∈ impis <;> simp [hmem]
  | none =>
    rcases himpi with h | hmem
    · rw [hirs] at h
      cases h
    · simp [hmem]

/-- The pass that reads the store finds the record, and its write is accepted. -/
theorem can_rereadPass (hrefreshed : irs.refreshed = true) {impis : List String}
    (hS : ∀ impi ∈ impis, S impi) :
    Can (AnsweredFrom S) (fun st : ImpuActionState => st.status.isContention = false ∧
      Tracks irs impis (st.status, st.irs)) (rereadPass .setImpu s irs) := by
  refine .call (Status.ok, some (.default (listingImpis irs s impis))) ?_ ?_
  · intro d hd
    cases hd
    exact hS
  · show Can _ _ (irs.mergeFromStore (listingImpis irs s impis) >>= _)
    rw [Irs.mergeFromStore, if_pos hrefreshed]
    exact .call (0 : Int) trivial (.call Status.ok trivial (.ret ⟨rfl, tracks_merged hrefreshed impis⟩))

/-- An IRS from the store meets a conflict first, and then reads the record. -/
theorem can_updateIrsImpu (hrefreshed : irs.refreshed = true) {impis : List String}
    (hS : ∀ impi ∈ impis, S impi) :
    Can (AnsweredFrom S) (Tracks irs impis) (updateIrsImpu irs s) := by
  have hreread : ∀ status, Can (AnsweredFrom S)
      (fun st : ImpuActionState => Tracks irs impis (st.status, st.irs))
      (Prog.loop (impuActionPass .setImpu s) (fun st => st.status.isContention)
        { status := status, irs := irs, impu := none }) :=
    fun status => .loop_once (can_rereadPass hrefreshed hS)
  unfold updateIrsImpu performIrsImpuAction Irs.getImpuForStore
  split
  · refine .call (0 : Int) trivial ?_
    have hloop : Can (AnsweredFrom S) (fun st : ImpuActionState => Tracks irs impis (st.status, st.irs))
        (Prog.loop (impuActionPass .setImpu s) (fun st => st.status.isContention)
          { status := .ok, irs := irs, impu := some (irs.createImpu irs.cas irs.store 0) }) := by
      refine .loop_again (R := fun st => st = { status := .dataContention, irs := irs, impu := none })
        (.call Status.dataContention trivial (.ret ⟨rfl, rfl⟩)) ?_
      rintro st rfl
      exact hreread .dataContention
    exact hloop.bind fun st hst => .ret hst
  · exact (hreread .ok).bind fun st hst => .ret hst

theorem can_createIrsImpu :
    Can (AnsweredFrom S) (fun status => status = Status.ok) (createIrsImpu irs s) := by
  refine .call (0 : Int) trivial ?_
  show Can _ _ (if irs.registrationState = .registered then _ else _)
  split
  · exact .call Status.ok trivial (.ret rfl)
  · exact .call Status.ok trivial (.ret rfl)

theorem can_updateIrsAssociatedImpus :
    Can (AnsweredFrom S) (fun _ => True) (updateIrsAssociatedImpus irs s) := by
  have hwrite : ∀ impu status, Can (AnsweredFrom S) (fun _ => True)
      (writeAssociatedImpu irs s impu status) :=
    fun impu status => .call (0 : Int) trivial (.call Status.ok trivial (.ret trivial))
  have hremoves : Can (AnsweredFrom S) (fun status => status = Status.ok)
      (Prog.forEach (irs.impusIn .deleted) (removeAssociatedImpu irs s) .ok) := by
    refine .forEach (fun impu status hstatus => ?_) _ rfl
    subst hstatus
    exact .loop_once (.call (Status.notFound, none) (answeredFrom_noImpu impu) (.ret ⟨rfl, rfl⟩))
  rw [updateIrsAssociatedImpus_eq]
  refine hremoves.bind fun status _ => Can.bind (Q := fun _ => True) ?_ fun status _ =>
    .forEach (fun impu status _ => hwrite impu status) _ trivial
  split
  · exact .forEach (fun impu status _ => hwrite impu status) _ trivial
  · exact .ret trivial

/-- Some put on the store writes the mapping. -/
theorem canCall_putIrsAction (hrefreshed : irs.refreshed = true)
    (himpi : impi ∈ irs.impis ∨ irs.existing = true ∧ S impi) :
    CanCall (AnsweredFrom S) (Call.WritesMapping impi) (putIrsAction irs s) := by
  have hput : Can (AnsweredFrom S) (fun r => r.1 = .ok ∧ r.2.refreshed = true ∧ impi ∈ r.2.impis)
      (putIrsImpu irs s) := by
    unfold putIrsImpu
    split
    · obtain ⟨impis, hS, hlisted⟩ : ∃ impis : List String,
          (∀ impi ∈ impis, S impi) ∧ (impi ∈ irs.impis ∨ impi ∈ impis) := by
        rcases himpi with hmem | ⟨-, hS⟩
        · exact ⟨[], by simp, .inl hmem⟩
        · exact ⟨[impi], by simpa using hS, .inr (List.mem_singleton_self _)⟩
      exact (can_updateIrsImpu hrefreshed hS).weaken fun r hr => ⟨hr.1, hr.2.1, hr.2.2 impi hlisted⟩
    · rename_i hnew
      have hmem : impi ∈ irs.impis := himpi.resolve_right fun h => hnew h.1
      exact can_createIrsImpu.bind fun status hstatus => .ret ⟨hstatus, hrefreshed, hmem⟩
  refine CanCall.bind_right hput fun put hr => ?_
  show CanCall _ _ (if put.1 = .ok then _ else _)
  rw [if_pos hr.1]
  exact CanCall.bind_right can_updateIrsAssociatedImpus fun _ _ =>
    (canCall_updateIrsImpiMappings hr.2.1 hr.2.2).bind_left _

end Each

/-- The put of a refreshed IRS may write the mappings of its IMPIs, and those of the IMPIs that the
stored records list if it may merge one, and no other mapping. -/
theorem mayMap_put_iff {S : String → Prop} (cache : MemcachedCache) {irs : Irs}
    (hrefreshed : irs.refreshed = true) (impi : String) :
    MayMap S (cache.putImplicitRegistrationSet irs) impi ↔
      impi ∈ irs.impis ∨ irs.existing = true ∧ S impi := by
  constructor
  · exact MayMap.covered
  · intro himpi
    have hchanged : irs.hasChanged = true := by simp [Irs.hasChanged, hrefreshed]
    unfold MayMap MemcachedCache.putImplicitRegistrationSet
    rw [if_pos hchanged]
    exact (canCall_putIrsAction hrefreshed himpi).bind_left _

end Homestead

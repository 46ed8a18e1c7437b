import Homestead.Model.Flows
import Homestead.Proofs.Data

/-!
# `Homestead.Proofs.Setters`: what a list of setters leaves

The effect of `Irs.applyAll` field by field. A setter that is called twice counts with its
last value, so `lastRegState`, `lastImsSubXml` and `lastChargingAddresses` read the last
value from the list. `Applied` collects the fields, and `applied_applyAll` is the one
induction over the list. `KeepsDefault` says that the documents of the list have `D` as
their default identity, and `IsFor` that the IRS is one for `D` in good form.
-/

set_option autoImplicit false

namespace Homestead

def Setter.regState? : Setter → Option RegistrationState
  | .setRegState state => some state
  | _ => none

def Setter.imsSubXml? : Setter → Option String
  | .setImsSubXml xml => some xml
  | _ => none

def Setter.chargingAddresses? : Setter → Option ChargingAddresses
  | .setChargingAddresses addresses => some addresses
  | _ => none

def Setter.impi? : Setter → Option String
  | .addAssociatedImpi impi => some impi
  | _ => none

def Setter.ttl? : Setter → Option Int
  | .setTtl ttl => some ttl
  | _ => none

section

variable (setters : List Setter)

/-- The registration state that the setters leave, if they set it. -/
def lastRegState : Option RegistrationState := (setters.filterMap Setter.regState?).getLast?

/-- The document that the setters leave, if they set it. -/
def lastImsSubXml : Option String := (setters.filterMap Setter.imsSubXml?).getLast?

/-- The charging addresses that the setters leave, if they set them. -/
def lastChargingAddresses : Option ChargingAddresses :=
  (setters.filterMap Setter.chargingAddresses?).getLast?

/-- The IMPIs that the setters add. -/
def addedImpis : List String := setters.filterMap Setter.impi?

/-- The setters set the TTL, as a registration does. -/
def setsTtl : Bool := setters.any fun setter => setter.ttl?.isSome

/-- Every document of the list has the default identity `D`. -/
def KeepsDefault (px : XmlParser) (D : String) : Prop :=
  ∀ xml, Setter.setImsSubXml xml ∈ setters → px.getDefaultId xml "" = D

end

/-- The fields of the IRS `irs'` that the setters leave of `irs`. -/
structure Applied (setters : List Setter) (irs irs' : Irs) : Prop where
  store : irs'.store = irs.store
  cas : irs'.cas = irs.cas
  existing : irs'.existing = irs.existing
  refreshed : irs'.refreshed = (irs.refreshed || setsTtl setters)
  registrationState : irs'.registrationState = (lastRegState setters).getD irs.registrationState
  registrationStateSet :
    irs'.registrationStateSet = (irs.registrationStateSet || (lastRegState setters).isSome)
  imsSubXml : irs'.imsSubXml = (lastImsSubXml setters).getD irs.imsSubXml
  imsSubXmlSet : irs'.imsSubXmlSet = (irs.imsSubXmlSet || (lastImsSubXml setters).isSome)
  chargingAddresses :
    irs'.chargingAddresses = (lastChargingAddresses setters).getD irs.chargingAddresses
  chargingAddressesSet :
    irs'.chargingAddressesSet
      = (irs.chargingAddressesSet || (lastChargingAddresses setters).isSome)
  impis : ∀ impi : String,
    irs'.impis[impi]? = if impi ∈ addedImpis setters then some .added else irs.impis[impi]?

/-- One setter, by the fields it sets. -/
theorem applied_apply (px : XmlParser) (setter : Setter) (irs : Irs) :
    Applied [setter] irs (setter.apply px irs) := by
  cases setter with
  | setRegState state =>
    exact ⟨rfl, rfl, rfl, (Bool.or_false _).symm, rfl, (Bool.or_true _).symm, rfl,
      (Bool.or_false _).symm, rfl, (Bool.or_false _).symm, fun _ => rfl⟩
  | setChargingAddresses addresses =>
    exact ⟨rfl, rfl, rfl, (Bool.or_false _).symm, rfl, (Bool.or_false _).symm, rfl,
      (Bool.or_false _).symm, rfl, (Bool.or_true _).symm, fun _ => rfl⟩
  | setImsSubXml xml =>
    exact ⟨rfl, rfl, rfl, (Bool.or_false _).symm, rfl, (Bool.or_false _).symm, rfl,
      (Bool.or_true _).symm, rfl, (Bool.or_false _).symm, fun _ => rfl⟩
  | setTtl ttl =>
    exact ⟨rfl, rfl, rfl, (Bool.or_true _).symm, rfl, (Bool.or_false _).symm, rfl,
      (Bool.or_false _).symm, rfl, (Bool.or_false _).symm, fun _ => rfl⟩
  | addAssociatedImpi impi =>
    refine ⟨rfl, rfl, rfl, (Bool.or_false _).symm, rfl, (Bool.or_false _).symm, rfl,
      (Bool.or_false _).symm, rfl, (Bool.or_false _).symm, fun i => ?_⟩
    show (irs.impis.insert impi .added)[i]? = if i ∈ [impi] then _ else _
    rw [Data.getElem?_insert]
    simp

/-- Two lists of setters after each other. -/
theorem Applied.append {l₁ l₂ : List Setter} {irs irs₁ irs₂ : Irs} (h₁ : Applied l₁ irs irs₁)
    (h₂ : Applied l₂ irs₁ irs₂) : Applied (l₁ ++ l₂) irs irs₂ where
  store := h₂.store.trans h₁.store
  cas := h₂.cas.trans h₁.cas
  existing := h₂.existing.trans h₁.existing
  refreshed := by
    rw [h₂.refreshed, h₁.refreshed, Bool.or_assoc]
    simp [setsTtl]
  registrationState := by
    rw [h₂.registrationState, h₁.registrationState]
    simp [lastRegState, List.getLast?_append, Option.getD_or]
  registrationStateSet := by
    rw [h₂.registrationStateSet, h₁.registrationStateSet, Bool.or_assoc]
    simp [lastRegState, List.getLast?_append, Option.isSome_or, Bool.or_comm]
  imsSubXml := by
    rw [h₂.imsSubXml, h₁.imsSubXml]
    simp [lastImsSubXml, List.getLast?_append, Option.getD_or]
  imsSubXmlSet := by
    rw [h₂.imsSubXmlSet, h₁.imsSubXmlSet, Bool.or_assoc]
    simp [lastImsSubXml, List.getLast?_append, Option.isSome_or, Bool.or_comm]
  chargingAddresses := by
    rw [h₂.chargingAddresses, h₁.chargingAddresses]
    simp [lastChargingAddresses, List.getLast?_append, Option.getD_or]
  chargingAddressesSet := by
    rw [h₂.chargingAddressesSet, h₁.chargingAddressesSet, Bool.or_assoc]
    simp [lastChargingAddresses, List.getLast?_append, Option.isSome_or, Bool.or_comm]
  impis impi := by
    have hmem : impi ∈ addedImpis (l₁ ++ l₂) ↔ impi ∈ addedImpis l₁ ∨ impi ∈ addedImpis l₂ := by
      rw [addedImpis, List.filterMap_append, List.mem_append]
      rfl
    rw [h₂.impis, h₁.impis]
    by_cases hmem₁ : impi ∈ addedImpis l₁ <;> by_cases hmem₂ : impi ∈ addedImpis l₂ <;>
      simp [hmem, hmem₁, hmem₂]

/-- The fields that a list of setters leaves. -/
theorem applied_applyAll (px : XmlParser) (setters : List Setter) (irs : Irs) :
    Applied setters irs (irs.applyAll px setters) := by
  induction setters generalizing irs with
  | nil =>
    exact ⟨rfl, rfl, rfl, (Bool.or_false _).symm, rfl, (Bool.or_false _).symm, rfl,
      (Bool.or_false _).symm, rfl, (Bool.or_false _).symm, fun _ => rfl⟩
  | cons setter setters ih => exact (applied_apply px setter irs).append (ih _)

/-- Every setter keeps `P`, so the list does. -/
theorem applyAll_induction {px : XmlParser} {P : Irs → Prop} {setters : List Setter}
    (hstep : ∀ setter ∈ setters, ∀ irs, P irs → P (setter.apply px irs)) {irs : Irs}
    (h : P irs) : P (irs.applyAll px setters) := by
  induction setters generalizing irs with
  | nil => exact h
  | cons setter setters ih =>
    exact ih (fun x hx => hstep x (List.mem_cons_of_mem _ hx))
      (hstep setter List.mem_cons_self irs h)

/-- With documents for `D`, an IRS for `D` stays one. -/
theorem defaultImpu_applyAll {px : XmlParser} {D : String} {setters : List Setter}
    (hxml : KeepsDefault setters px D) {irs : Irs} (h : irs.defaultImpu = D) :
    (irs.applyAll px setters).defaultImpu = D := by
  refine applyAll_induction (P := fun irs => irs.defaultImpu = D)
    (fun setter hmem irs h => ?_) h
  cases setter with
  | setImsSubXml xml => exact hxml xml hmem
  | setRegState state => exact h
  | addAssociatedImpi impi => exact h
  | setChargingAddresses addresses => exact h
  | setTtl ttl => exact h

/-- A list of setters with a document for `D` makes any IRS one for `D`. -/
theorem defaultImpu_applyAll_of_mem {px : XmlParser} {D : String} {setters : List Setter}
    (hxml : KeepsDefault setters px D) {xml : String} (hmem : .setImsSubXml xml ∈ setters)
    (irs : Irs) : (irs.applyAll px setters).defaultImpu = D := by
  obtain ⟨l₁, l₂, rfl⟩ := List.append_of_mem hmem
  have htail : KeepsDefault l₂ px D := fun x hx => hxml x (by simp [hx])
  have hhead : ((Setter.setImsSubXml xml).apply px (irs.applyAll px l₁)).defaultImpu = D :=
    hxml xml hmem
  have happend : irs.applyAll px (l₁ ++ .setImsSubXml xml :: l₂)
      = ((Setter.setImsSubXml xml).apply px (irs.applyAll px l₁)).applyAll px l₂ := by
    simp [Irs.applyAll]
  rw [happend]
  exact defaultImpu_applyAll htail hhead

/-- `set_ims_sub_xml` does not add the default identity to the associated IMPUs. -/
theorem untracked_applyAll {px : XmlParser} {D : String} {setters : List Setter}
    (hxml : KeepsDefault setters px D) {irs : Irs} (h : irs.associatedImpus[D]? = none) :
    (irs.applyAll px setters).associatedImpus[D]? = none := by
  refine applyAll_induction (P := fun irs => irs.associatedImpus[D]? = none)
    (fun setter hmem irs h => ?_) h
  cases setter with
  | setImsSubXml xml =>
    have hD : (px.getPublicAndDefaultIds xml "").2 = D := hxml xml hmem
    show (Data.setElements _ irs.associatedImpus (px.getPublicAndDefaultIds xml "").2)[D]? = none
    rw [Data.getElem?_setElements, hD, h]
    simp
  | setRegState state => exact h
  | addAssociatedImpi impi => exact h
  | setChargingAddresses addresses => exact h
  | setTtl ttl => exact h

/-- Without a document the associated IMPUs stay. -/
theorem associatedImpus_applyAll_of_nil {px : XmlParser} {setters : List Setter}
    (hnone : setters.filterMap Setter.imsSubXml? = []) (irs : Irs) :
    (irs.applyAll px setters).associatedImpus = irs.associatedImpus := by
  refine applyAll_induction (P := fun irs' => irs'.associatedImpus = irs.associatedImpus)
    (fun setter hmem irs' h => ?_) rfl
  cases setter with
  | setImsSubXml xml =>
    have hxml : xml ∈ setters.filterMap Setter.imsSubXml? :=
      List.mem_filterMap.mpr ⟨_, hmem, rfl⟩
    rw [hnone] at hxml
    cases hxml
  | setRegState state => exact h
  | addAssociatedImpi impi => exact h
  | setChargingAddresses addresses => exact h
  | setTtl ttl => exact h

/-- With one document the associated IMPUs are those that `set_elements` makes of it. -/
theorem associatedImpus_applyAll_of_one {px : XmlParser} {setters : List Setter} {xml : String}
    (hone : setters.filterMap Setter.imsSubXml? = [xml]) (irs : Irs) :
    (irs.applyAll px setters).associatedImpus
      = Data.setElements (px.getPublicIds xml) irs.associatedImpus (px.getDefaultId xml "") := by
  induction setters generalizing irs with
  | nil => cases hone
  | cons setter setters ih =>
    cases setter with
    | setImsSubXml xml' =>
      rw [List.filterMap_cons_some (show Setter.imsSubXml? _ = some xml' from rfl)] at hone
      obtain ⟨rfl, hnil⟩ := List.cons.inj hone
      exact associatedImpus_applyAll_of_nil hnil _
    | setRegState state => exact ih hone _
    | addAssociatedImpi impi => exact ih hone _
    | setChargingAddresses addresses => exact ih hone _
    | setTtl ttl => exact ih hone _

/-! ### An IRS for one default IMPU -/

/-- The IRS is for `D`, and does not track `D` as an associated IMPU. -/
structure IsFor (D : String) (irs : Irs) : Prop where
  defaultImpu : irs.defaultImpu = D
  untracked : irs.associatedImpus[D]? = none

namespace IsFor

variable {D : String} {irs : Irs}

/-- Nothing that the IRS would write lists `D`. -/
theorem notMem (h : IsFor D irs) : D ∉ irs.getAssociatedImpus := by
  show D ∉ irs.associatedImpus.present
  rw [Data.mem_present, h.untracked]
  simp

/-- The setters keep it, with documents for `D`. -/
theorem applyAll {px : XmlParser} {setters : List Setter} (h : IsFor D irs)
    (hxml : KeepsDefault setters px D) : IsFor D (irs.applyAll px setters) :=
  ⟨defaultImpu_applyAll hxml h.defaultImpu, untracked_applyAll hxml h.untracked⟩

/-- The merge with a stored record that does not list `D` keeps it. -/
theorem merge (h : IsFor D irs) {d : DefaultImpu} (now : Int) (hself : D ∉ d.associatedImpus) :
    IsFor D (irs.updateFromImpuFromStore d now) where
  defaultImpu := h.defaultImpu
  untracked := by
    show (if irs.refreshed then irs.associatedImpus.emplaceDeleted d.associatedImpus
      else irs.associatedImpus.mergeDataSets d.associatedImpus)[D]? = none
    split
    · rw [Data.getElem?_emplaceDeleted, h.untracked]
      simp [hself]
    · rw [Data.getElem?_mergeDataSets, h.untracked]
      simp [hself]

end IsFor

/-- An IRS read from a record for `D` that does not list `D`. -/
theorem isFor_ofDefaultImpu {D : String} {d : DefaultImpu} (now : Int) (hD : d.impu = D)
    (hself : D ∉ d.associatedImpus) : IsFor D (Irs.ofDefaultImpu d now) where
  defaultImpu := hD
  untracked := by
    show (Data.ofStored d.associatedImpus)[D]? = none
    rw [Data.getElem?_ofStored, if_neg hself]

end Homestead

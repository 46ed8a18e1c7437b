import Homestead.Proofs.Data
import Homestead.Proofs.PublicIds

/-!
# `Homestead.Proofs.SetImsSubXml`: an IRS that is given a document

`set_ims_sub_xml` takes the identities of the IRS from the document. `DescribesXml` is what the
IRS should track afterwards: the default identity of the document, its other identities as
associated IMPUs, and every IMPU that was tracked before and is not one of these as deleted.

`set_ims_sub_xml_exact_iff` says when it does. `set_elements` ignores the default identity where
it adds IMPUs, so that it is not tracked as an associated one. Where it marks IMPUs as deleted,
it does not ignore it. So a default identity that the IRS has as an associated IMPU stays one.
-/

set_option autoImplicit false

namespace Homestead

/-- The IRS `after` describes the document exactly, and clears up what `before` tracked. -/
structure DescribesXml (px : XmlParser) (xml : String) (before after : Irs) : Prop where
  defaultImpu : after.defaultImpu = px.getDefaultId xml ""
  associatedImpus : ∀ impu, impu ∈ after.getAssociatedImpus ↔
    impu ∈ px.getPublicIds xml ∧ impu ≠ px.getDefaultId xml ""
  clearedUp : ∀ impu, before.associatedImpus[impu]? ≠ none →
    ¬ (impu ∈ px.getPublicIds xml ∧ impu ≠ px.getDefaultId xml "") →
    after.associatedImpus[impu]? = some .deleted

/-- The default identity of a document is one of its public identities, unless all of them are
barred. -/
theorem getDefaultId_mem {px : XmlParser} {xml : String} (h : (px.collectIds xml).unbarred ≠ [])
    (defaultId : String) : px.getDefaultId xml defaultId ∈ px.getPublicIds xml := by
  have hsub := px.collectIds_unbarred_subset xml
  show (px.collectIds xml).unbarred.head?.getD defaultId ∈ (px.collectIds xml).all
  cases hids : (px.collectIds xml).unbarred with
  | nil => exact absurd hids h
  | cons id ids =>
    apply hsub
    simp [hids]

variable {px : XmlParser} {irs : Irs} {xml : String}

/-- What `set_ims_sub_xml` makes of one tracked IMPU. -/
theorem getElem?_setImsSubXml (px : XmlParser) (irs : Irs) (xml impu : String) :
    (irs.setImsSubXml px xml).associatedImpus[impu]?
      = if impu ∈ px.getPublicIds xml then
          if impu ≠ px.getDefaultId xml "" ∧ irs.associatedImpus[impu]? ≠ some .unchanged then
            some .added
          else irs.associatedImpus[impu]?
        else irs.associatedImpus[impu]?.map fun _ => .deleted :=
  Data.getElem?_setElements _ _ _ _

/-- An identity of the document other than the default one is an associated IMPU. -/
theorem mem_associated_of_mem {impu : String} (hmem : impu ∈ px.getPublicIds xml)
    (hne : impu ≠ px.getDefaultId xml "") :
    impu ∈ (irs.setImsSubXml px xml).getAssociatedImpus := by
  show impu ∈ Data.present _
  rw [Data.mem_present, getElem?_setImsSubXml, if_pos hmem]
  by_cases hstate : irs.associatedImpus[impu]? = some .unchanged
  · simp [hstate]
  · simp [hne, hstate]

/-- An IMPU that the document does not list is tracked as deleted, if at all. -/
theorem deleted_of_notMem {impu : String} (hnot : impu ∉ px.getPublicIds xml) :
    (irs.setImsSubXml px xml).associatedImpus[impu]?
      = irs.associatedImpus[impu]?.map fun _ => .deleted := by
  rw [getElem?_setImsSubXml, if_neg hnot]

/-- The default identity of the document keeps its state when the document has one that is not
barred. -/
theorem getElem?_default (h : (px.collectIds xml).unbarred ≠ []) :
    (irs.setImsSubXml px xml).associatedImpus[px.getDefaultId xml ""]?
      = irs.associatedImpus[px.getDefaultId xml ""]? := by
  rw [getElem?_setImsSubXml, if_pos (getDefaultId_mem h "")]
  simp

/-- For every IRS and every document with an identity that is not barred: after
`set_ims_sub_xml` the IRS describes the document exactly if and only if its default identity was
not one of the associated IMPUs of the IRS before. -/
theorem set_ims_sub_xml_exact_iff (px : XmlParser) (irs : Irs) (xml : String)
    (h : (px.collectIds xml).unbarred ≠ []) :
    DescribesXml px xml irs (irs.setImsSubXml px xml) ↔
      px.getDefaultId xml "" ∉ irs.getAssociatedImpus := by
  have hkeeps : (irs.setImsSubXml px xml).associatedImpus[px.getDefaultId xml ""]?
      = irs.associatedImpus[px.getDefaultId xml ""]? := getElem?_default h
  have hiff : px.getDefaultId xml "" ∈ (irs.setImsSubXml px xml).getAssociatedImpus ↔
      px.getDefaultId xml "" ∈ irs.getAssociatedImpus := by
    show _ ∈ Data.present _ ↔ _ ∈ Data.present _
    rw [Data.mem_present, Data.mem_present, hkeeps]
  constructor
  · intro hdescribes hmem
    have hne := (hdescribes.associatedImpus _).mp (hiff.mpr hmem)
    exact hne.2 rfl
  · intro hnot
    constructor
    · rfl
    · intro impu
      constructor
      · intro hmem
        have hne : impu ≠ px.getDefaultId xml "" := by
          intro heq
          rw [heq] at hmem
          exact hnot (hiff.mp hmem)
        -- A listed IMPU is in the document: the others are tracked as deleted.
        have hids : impu ∈ px.getPublicIds xml := by
          by_contra hids
          have hmem' : impu ∈ Data.present _ := hmem
          rw [Data.mem_present, deleted_of_notMem hids] at hmem'
          cases hstate : irs.associatedImpus[impu]? <;> simp [hstate] at hmem'
        exact ⟨hids, hne⟩
      · intro hmem
        exact mem_associated_of_mem hmem.1 hmem.2
    · intro impu htracked hother
      by_cases hids : impu ∈ px.getPublicIds xml
      · -- It is the default identity, which was tracked as deleted already.
        have heq : impu = px.getDefaultId xml "" := by
          by_contra hne
          exact hother ⟨hids, hne⟩
        subst heq
        rw [hkeeps]
        have hnot' : px.getDefaultId xml "" ∉ Data.present irs.associatedImpus := hnot
        rw [Data.mem_present] at hnot'
        cases hstate : irs.associatedImpus[px.getDefaultId xml ""]? with
        | none => exact absurd hstate htracked
        | some state => cases state <;> simp [hstate] at hnot' ⊢
      · rw [deleted_of_notMem hids]
        cases hstate : irs.associatedImpus[impu]? with
        | none => exact absurd hstate htracked
        | some state => rfl

/-- Two documents with the same identities, in the other order. -/
def swappedProfiles : XmlParser :=
  .ofTable [("old", ["sip:d@example.com", "sip:a@example.com"]),
    ("new", ["sip:a@example.com", "sip:d@example.com"])]

/-- The stored record of the first document. -/
def swappedRecord : DefaultImpu where
  impu := "sip:d@example.com"
  associatedImpus := ["sip:a@example.com"]
  impis := ["impi@example.com"]
  registrationState := .registered
  chargingAddresses := {}
  serviceProfile := "old"
  cas := 1
  expiry := 300
  store := some 0

/-- The same document again leaves the IRS as it was. -/
theorem set_ims_sub_xml_exact_iff_same :
    DescribesXml swappedProfiles "old" (Irs.ofDefaultImpu swappedRecord 0)
      ((Irs.ofDefaultImpu swappedRecord 0).setImsSubXml swappedProfiles "old") :=
  (set_ims_sub_xml_exact_iff swappedProfiles (Irs.ofDefaultImpu swappedRecord 0) "old"
    (by decide)).mpr (by decide)

/-- With the second document, the new default identity stays an associated IMPU of its own
IRS. -/
theorem default_stays_associated :
    "sip:a@example.com" ∈ ((Irs.ofDefaultImpu swappedRecord 0).setImsSubXml swappedProfiles
        "new").getAssociatedImpus ∧
      ¬ DescribesXml swappedProfiles "new" (Irs.ofDefaultImpu swappedRecord 0)
        ((Irs.ofDefaultImpu swappedRecord 0).setImsSubXml swappedProfiles "new") := by
  have hmem : "sip:a@example.com" ∈ ((Irs.ofDefaultImpu swappedRecord 0).setImsSubXml
      swappedProfiles "new").getAssociatedImpus := by decide
  have hdefault : swappedProfiles.getDefaultId "new" "" = "sip:a@example.com" := by decide
  constructor
  · exact hmem
  · intro hdescribes
    have hne := (hdescribes.associatedImpus _).mp hmem
    exact hne.2 hdefault.symm

end Homestead

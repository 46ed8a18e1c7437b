import Homestead.Lib.FirstSeen
import Homestead.Model.XmlUtils

/-!
# `Homestead.Proofs.PublicIds`: the identities that a document is read for

`get_public_and_default_ids` fills two vectors in one walk over the document: the identities, and
those of them that are not barred. An identity that comes again, in the same service profile or in
another, is passed over. It may have been rewritten to one that came before, and it may be barred
differently.

`occurrences` is the document as the claim about it is made: the URI of each `PublicIdentity` that
has an `Identity`, and whether it is unbarred. `public_ids_of_document` says what the walk makes of
that list.
-/

set_option autoImplicit false

namespace Homestead

/-- The `PublicIdentity` nodes of a document, in order. -/
def UserData.publicIdentities (doc : UserData) : List PublicIdentity :=
  (doc.imsSubscription.getD []).flatMap ServiceProfile.publicIdentities

/-- The two vectors as the state of a loop that records what it meets first. -/
def PublicIds.seen (ids : PublicIds) : FirstSeen String :=
  { keys := ids.all, marked := ids.unbarred }

namespace XmlParser

variable (px : XmlParser)

/-- A node without a `BarringIndication` is unbarred. -/
def isUnbarred (pi : PublicIdentity) : Bool :=
  pi.barringIndication.getD px.stateUnbarred = px.stateUnbarred

/-- The URI of a node that has one, and whether the node is unbarred. -/
def occurrence (pi : PublicIdentity) : Option (String × Bool) :=
  (px.uriOf pi).map fun uri => (uri, px.isUnbarred pi)

/-- The URIs of a document in order, as often as they occur. -/
def occurrences (userData : String) : List (String × Bool) :=
  match px.parse userData with
  | none => []
  | some doc => doc.publicIdentities.filterMap px.occurrence

/-- The body of the inner loop meets one occurrence, or none. -/
theorem seen_addPublicIdentity (ids : PublicIds) (pi : PublicIdentity) :
    (px.addPublicIdentity ids pi).seen
      = match px.occurrence pi with
        | none => ids.seen
        | some e => ids.seen.record e := by
  unfold addPublicIdentity occurrence
  cases px.uriOf pi with
  | none => rfl
  | some uri =>
    show (if uri ∈ ids.all then ids else _ : PublicIds).seen
      = if uri ∈ ids.all then ids.seen else _
    split
    · rfl
    · simp [PublicIds.seen, isUnbarred]

theorem seen_foldl (pis : List PublicIdentity) (ids : PublicIds) :
    (pis.foldl px.addPublicIdentity ids).seen
      = (pis.filterMap px.occurrence).foldl FirstSeen.record ids.seen := by
  induction pis generalizing ids with
  | nil => rfl
  | cons pi pis ih =>
    rw [List.foldl_cons, ih, seen_addPublicIdentity]
    cases hpi : px.occurrence pi with
    | none => rw [List.filterMap_cons_none hpi]
    | some e => rw [List.filterMap_cons_some hpi, List.foldl_cons]

/-- The walk over the document is the loop over its occurrences. -/
theorem records_collectIds (userData : String) :
    FirstSeen.Records (px.occurrences userData) (px.collectIds userData).seen := by
  have hseen : (px.collectIds userData).seen = FirstSeen.of (px.occurrences userData) := by
    unfold collectIds occurrences
    cases px.parse userData with
    | none => rfl
    | some doc =>
      obtain ⟨imsSubscription⟩ := doc
      cases imsSubscription with
      | none => rfl
      | some profiles => exact px.seen_foldl _ {}
  rw [hseen]
  exact FirstSeen.records_of _

/-- Every unbarred identity is a public identity. -/
theorem collectIds_unbarred_subset (userData : String) :
    (px.collectIds userData).unbarred ⊆ (px.collectIds userData).all := by
  have hmarked : (px.collectIds userData).unbarred = (px.collectIds userData).all.filter _ :=
    (px.records_collectIds userData).marked
  rw [hmarked]
  exact List.filter_sublist.subset

end XmlParser

/-- For every parser, document and default identity before the call. The public identities are the
URIs that occur in the document, without duplicates and in the order in which they first occur.
The default identity is the first of them that is unbarred where it first occurs, and stays as it
was if there is none. Without a document, or without an `IMSSubscription` in it, there are no
identities and the default one stays as it was. -/
theorem public_ids_of_document (px : XmlParser) (userData defaultId : String) :
    let ids := (px.getPublicAndDefaultIds userData defaultId).1
    let uris := (px.occurrences userData).map Prod.fst
    (∀ uri, uri ∈ ids ↔ uri ∈ uris) ∧ ids.Nodup ∧
      ids.Pairwise (fun uri₁ uri₂ => uris.idxOf uri₁ < uris.idxOf uri₂) ∧
      (px.getPublicAndDefaultIds userData defaultId).2
        = (ids.find? fun uri => (px.occurrences userData).lookup uri = some true).getD defaultId ∧
      ((px.parse userData).bind UserData.imsSubscription = none →
        px.getPublicAndDefaultIds userData defaultId = ([], defaultId)) := by
  intro ids uris
  have hrecords := px.records_collectIds userData
  refine ⟨hrecords.mem, hrecords.nodup, hrecords.ordered, ?_, fun hnone => ?_⟩
  · exact congrArg (·.getD defaultId) hrecords.head?_marked
  · unfold XmlParser.getPublicAndDefaultIds XmlParser.collectIds
    rw [hnone]
    rfl

/-- Two service profiles. The first identity is barred, and comes again unbarred; the third is
rewritten to the second; and one node has no identity. -/
def repeatedIdentities : XmlParser where
  parse _ := some
    { imsSubscription := some
        [{ publicIdentities :=
            [{ identity := some "sip:a@example.com", barringIndication := some "1" },
             { identity := some "sip:b!.*!@example.com", barringIndication := some "0" }] },
         { publicIdentities :=
            [{ identity := some "sip:a@example.com" },
             { identity := some "sip:b1@example.com", extension := some "wildcard" },
             { identity := none }] }] }
  parseExtensionIdentity _ _ := "sip:b!.*!@example.com"
  stateUnbarred := "0"

example : repeatedIdentities.getPublicAndDefaultIds "profile" ""
    = (["sip:a@example.com", "sip:b!.*!@example.com"], "sip:b!.*!@example.com") := by decide

/-- A text that does not parse. -/
theorem public_ids_of_document_unparsed :
    (XmlParser.ofTable []).getPublicAndDefaultIds "profile" "sip:d@example.com"
      = ([], "sip:d@example.com") :=
  (public_ids_of_document (XmlParser.ofTable []) "profile" "sip:d@example.com").2.2.2.2 rfl

end Homestead

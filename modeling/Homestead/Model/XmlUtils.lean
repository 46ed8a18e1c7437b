import Mathlib.Tactic.Common

/-!
# `Homestead.Model.XmlUtils`: the identities of a User-Data document

The embedding of `get_public_and_default_ids` (`src/homestead_xml_utils.cpp`). Parsing is
rapidxml's and the extension rewriting is cpp-common's, so both are parameters
(`XmlParser`). The document is the part of the parse tree that the function walks:
`IMSSubscription`, its `ServiceProfile` children, their `PublicIdentity` children.
-/

set_option autoImplicit false

namespace Homestead

/-- A `PublicIdentity` node: the values of its first `Identity`, `BarringIndication` and
`Extension` children. The extension is kept as its source text. -/
structure PublicIdentity where
  identity : Option String
  barringIndication : Option String := none
  extension : Option String := none
  deriving DecidableEq, Repr

/-- A `ServiceProfile` node. -/
structure ServiceProfile where
  publicIdentities : List PublicIdentity
  deriving DecidableEq, Repr

/-- A parsed document: the `IMSSubscription` node, if there is one. -/
structure UserData where
  imsSubscription : Option (List ServiceProfile)
  deriving DecidableEq, Repr

/-- What the function takes from rapidxml and from `RegDataXMLUtils`. -/
structure XmlParser where
  parse : String → Option UserData
  parseExtensionIdentity : String → String → String
  stateUnbarred : String

/-- The two vectors `public_ids` and `unbarred_public_ids`. -/
structure PublicIds where
  all : List String := []
  unbarred : List String := []

namespace XmlParser

variable (px : XmlParser)

/-- The URI of a `PublicIdentity` node that has an `Identity` child. -/
def uriOf (pi : PublicIdentity) : Option String :=
  pi.identity.map fun uri =>
    match pi.extension with
    | some extension => px.parseExtensionIdentity uri extension
    | none => uri

/-- The body of the inner loop: a URI that is new is recorded, and recorded as unbarred
when its node is. -/
def addPublicIdentity (ids : PublicIds) (pi : PublicIdentity) : PublicIds :=
  match px.uriOf pi with
  | none => ids
  | some uri =>
    if uri ∈ ids.all then ids
    else
      { all := ids.all ++ [uri]
        unbarred :=
          if pi.barringIndication.getD px.stateUnbarred = px.stateUnbarred then
            ids.unbarred ++ [uri]
          else ids.unbarred }

/-- The walk over a document. A document that does not parse, or that has no
`IMSSubscription`, has no identities. -/
def collectIds (userData : String) : PublicIds :=
  match (px.parse userData).bind UserData.imsSubscription with
  | none => {}
  | some profiles =>
    (profiles.flatMap ServiceProfile.publicIdentities).foldl px.addPublicIdentity {}

/-- `get_public_and_default_ids`: the public identities, and the value of `default_id`
after the call. -/
def getPublicAndDefaultIds (userData defaultId : String) : List String × String :=
  let ids := px.collectIds userData
  (ids.all, ids.unbarred.head?.getD defaultId)

/-- `get_public_ids`. -/
def getPublicIds (userData : String) : List String :=
  (px.getPublicAndDefaultIds userData "").1

/-- `get_default_id`. -/
def getDefaultId (userData defaultId : String) : String :=
  (px.getPublicAndDefaultIds userData defaultId).2

/-- A parser for documents that are known beforehand, each with one service profile whose
identities are not barred. It is for concrete inputs. -/
def ofTable (docs : List (String × List String)) : XmlParser where
  parse userData := (docs.lookup userData).map fun ids =>
    { imsSubscription := some
        [{ publicIdentities := ids.map fun id => { identity := some id } }] }
  parseExtensionIdentity uri _ := uri
  stateUnbarred := "0"

example : (ofTable [("profile", ["sip:d", "sip:a", "sip:d"])]).getPublicAndDefaultIds "profile" ""
    = (["sip:d", "sip:a"], "sip:d") := by decide

end XmlParser

end Homestead

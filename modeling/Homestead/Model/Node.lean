import Homestead.Model.Registrar

/-!
# `Homestead.Model.Node`: a node with its stores

`serveTask` answers all the calls of a task, so that a task can be evaluated. The calls on the
stores are those of `serve`. What the rest of the deployment answers is in `Node.outside`, one
`Outside` for each answer, and may be anything. `Node.seen` records what the task has looked up, and
what it has sent to the HSS and to Sprout and answered to its request.
-/

set_option autoImplicit false

namespace Homestead

/-- What the rest of the deployment would answer, and what an object that is created would have in
the members that its constructor leaves uninitialised. -/
structure Outside where
  saa : ServerAssignmentRequest → ServerAssignmentAnswer
  sprout : HttpCode
  regDataXml : Option RegistrationState → HttpCode × String
  uninitialised : Int × RegistrationState

structure Node where
  world : World
  outside : Nat → Outside
  seen : List Observation

namespace Node

/-- The node after one answer of the rest of the deployment. -/
def next (n : Node) : Node := { n with outside := fun i => n.outside (i + 1) }

def saw (n : Node) (x : Observation) : Node := { n with seen := n.seen ++ [x] }

end Node

/-- The registration that an IRS stands for. -/
def Irs.registration (irs : Irs) : Registration where
  registered := decide (irs.registrationState = .registered)
  impis := {impi | impi ∈ irs.getAssociatedImpis}
  profile := irs.imsSubXml
  chargingAddresses := irs.chargingAddresses

/-- The calls of a task. -/
def serveTask : Handler TaskCall TaskCall.Resp Node
  | .store call, n => ((serve call n.world).1, { n with world := (serve call n.world).2 })
  | .callback (.onGetRegDataSuccess irs), n => ((), n.saw (.found irs.registration))
  | .callback (.onGetRegDataFailure rc), n => ((), n.saw (.notFound rc))
  | .callback _, n => ((), n)
  | .createImplicitRegistrationSet, n => ((n.outside 0).uninitialised, n.next)
  | .sendServerAssignmentRequest request, n =>
    ((n.outside 0).saa request, n.next.saw (.sar request ((n.outside 0).saa request)))
  | .deregisterBindings sendNotifications defaultPublicIds impis, n =>
    ((n.outside 0).sprout, n.next.saw
      (.deregisterBindings sendNotifications defaultPublicIds impis (n.outside 0).sprout))
  | .changeAssociatedIdentities defaultId userData, n =>
    ((n.outside 0).sprout, n.next.saw
      (.changeAssociatedIdentities defaultId userData (n.outside 0).sprout))
  | .buildClearwaterRegDataXml prevRegState, n => ((n.outside 0).regDataXml prevRegState, n.next)
  | .sendHttpReply rc content, n => ((), n.saw (.reply rc content))
  | .addWork _, n => ((), n)
  | .recordPenalty, n => ((), n)
  | .sendRta result impis, n => ((), n.saw (.rta result impis))
  | .sendPpa result, n => ((), n.saw (.ppa result))
  | .deleteThis, n => ((), n)

end Homestead

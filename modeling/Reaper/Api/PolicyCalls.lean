import Reaper.Api.Collection
import Reaper.Deletion
import Reaper.Policy.Wire

/-!
The calls about a policy and its target.
-/

namespace Reaper.Api

/-- The form of a reply that is a policy; only the form is of interest. -/
def policyReply (r : Response) : Except Fault Unit := (r.decode Policy.decode?).map fun _ => ()

/-- Lists the resources of a target, at most so many if there is a limit. -/
def listTarget (t : WatchTarget) (limit : Option Nat) : Exchange (Except Fault (Page Resource)) :=
  (Collection.ofTarget t t.namespace).list Resource.decode? { ListQuery.ofTarget t with limit }

def deleteOfTarget (t : WatchTarget) (c : DeleteCall) : Exchange (Except Fault Unit) :=
  (Collection.ofTarget t c.namespace).delete c.name c.options

def writeStatus (p : PolicyRef) (s : PolicyStatus) : Exchange (Except Fault Unit) :=
  callNamed p.name
    { method := .patch
      path := (Collection.policies p.namespace).objectPath p.name ++ "/status"
      content := some (.mergePatch, Json.ofFields [("status", s.encode)]) }
    policyReply

/-- Patches a policy by a list of operations. -/
def patchPolicy («namespace» name : String) (operations : Json) : Exchange (Except Fault Unit) :=
  callNamed name
    { method := .patch
      path := (Collection.policies «namespace»).objectPath name
      content := some (.jsonPatch, operations) }
    policyReply

end Reaper.Api

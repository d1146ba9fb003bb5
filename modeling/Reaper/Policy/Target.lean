import Reaper.Policy.Problems

/-!
What a policy watches, and who a policy is.

`WatchTarget.ofPolicy?` brings a policy's target into a normal form: two policies need the same watch exactly when their
targets are equal. `PolicyRef.ofPolicy` is the identity under which status and events are written.
-/

namespace Reaper

/-- Why a policy's target cannot be watched. -/
inductive TargetError where
  | emptyField (field : String)
  | malformedApiVersion (apiVersion : String)
  | missingNamespace
  deriving DecidableEq, Repr

def TargetError.message : TargetError → String
  | emptyField field => "targetResource." ++ field ++ " is empty"
  | malformedApiVersion v => "targetResource.apiVersion '" ++ v ++ "' is malformed"
  | missingNamespace => "policy has no namespace and its target does not set one"

namespace Plural

/-- The plural of a lower-case kind, by the rules of English with the exceptions of the core kinds. Whether a final
`y` follows a vowel is asked at the place two bytes before the end, counted in characters; the lone `y` has no such
place, and no plural. That is how a build counts that checks its arithmetic for overflow; in one that does not, the place
wraps around to one behind the end, and the plural is `ys`. -/
def ofLower? (word : String) : Option String :=
  if word = "endpoints" ∨ word = "endpointslices" then some word
  else if word = "nodemetrics" then some "nodes"
  else if word = "podmetrics" then some "pods"
  else if ["s", "x", "z", "ch", "sh"].any (fun e => e.toList.isSuffixOf word.toList) then some (word ++ "es")
  else if word.toList.getLast? ≠ some 'y' then some (word ++ "s")
  else if word.utf8ByteSize < 2 then none
  else
    let before := word.toList[word.utf8ByteSize - 2]?
    if before.any (fun c => !"aeiou".toList.contains c) then some (String.ofList word.toList.dropLast ++ "ies")
    else some (word ++ "s")

/-- The plural name of a kind, if it has one. -/
def ofKind? (kind : String) : Option String := ofLower? (String.ofList (kind.toList.map Char.toLower))

end Plural

/-- What is watched: a kind of resource by its plural, in one namespace or in all, narrowed by selectors. -/
structure WatchTarget where
  group : String
  version : String
  kind : String
  plural : String
  /-- none for all namespaces -/
  «namespace» : Option String
  labelSelector : String
  fieldSelector : String
  deriving DecidableEq, Repr, Inhabited

namespace WatchTarget

/-- The namespace that stands for all. -/
def allNamespaces : String := "*"

/-- A text without its outer blanks, if anything is left. -/
def nonBlank? (s : Option String) : Option String :=
  (s.map Text.trimText).filter (· ≠ "")

/-- Where a policy watches: a namespace, or all of them, or nowhere when the policy has no namespace of its own. -/
def scope? (p : Policy) : Option (Option String) :=
  match nonBlank? p.spec.targetResource.namespace with
  | some ns => if ns = allNamespaces then some none else some (some ns)
  | none => p.metadata.namespace.map some

/-- What a policy watches, if its target names something in a namespace. None when the kind has no plural. -/
def ofPolicy? (p : Policy) : Option (Except TargetError WatchTarget) :=
  let t := p.spec.targetResource
  let (group, version) := t.groupVersion
  if Text.isBlankText t.apiVersion then some (.error (.emptyField "apiVersion"))
  else if Text.isBlankText t.kind then some (.error (.emptyField "kind"))
  else if version.isEmpty || version.contains '/' || (group.isEmpty && t.apiVersion.contains '/') then
    some (.error (.malformedApiVersion t.apiVersion))
  else
    match scope? p with
    | none => some (.error .missingNamespace)
    | some ns =>
      let kind := Text.trimText t.kind
      (nonBlank? t.resource <|> Plural.ofKind? kind).map fun plural =>
        .ok
          { group, version, kind, plural
            «namespace» := ns
            labelSelector := (t.labelSelector.map LabelSelector.text).getD ""
            fieldSelector := (t.fieldSelector.map FieldSelector.text).getD "" }

/-- The API version of the kind watched. -/
def apiVersion (t : WatchTarget) : String :=
  if t.group.isEmpty then t.version else t.group ++ "/" ++ t.version

def label (t : WatchTarget) : String :=
  let what := if t.group.isEmpty then t.version ++ "/" ++ t.plural
    else t.group ++ "/" ++ t.version ++ "/" ++ t.plural
  what ++ match t.namespace with
    | some ns => " in " ++ ns
    | none => " in all namespaces"

/-- The selectors sent with a list or a watch; an empty one is not sent. -/
def selectors (t : WatchTarget) : Option String × Option String :=
  (some t.labelSelector |>.filter (· ≠ ""), some t.fieldSelector |>.filter (· ≠ ""))

end WatchTarget

/-- The identity of a policy. -/
structure PolicyRef where
  «namespace» : String
  name : String
  uid : String
  deriving DecidableEq, Repr, Inhabited

namespace PolicyRef

/-- The identity of a policy, or the first part that it lacks. -/
def ofPolicy (p : Policy) : Except String PolicyRef :=
  match p.metadata.namespace, p.metadata.name, p.metadata.uid with
  | none, _, _ => .error ".metadata.namespace"
  | _, none, _ => .error ".metadata.name"
  | _, _, none => .error ".metadata.uid"
  | some ns, some name, some uid => .ok ⟨ns, name, uid⟩

def label (r : PolicyRef) : String := r.namespace ++ "/" ++ r.name

/-- The reference by which events point to the policy. -/
def objectReference (r : PolicyRef) : Json :=
  Json.ofFields
    [("apiVersion", .string Policy.apiVersion), ("kind", .string Policy.kind), ("name", .string r.name),
      ("namespace", .string r.namespace), ("uid", .string r.uid)]

end PolicyRef

end Reaper

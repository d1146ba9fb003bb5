import Reaper.Settings
import Reaper.Json.Decode
import Reaper.Yaml.Reader
import Reaper.Text.Blank

/-!
Settings as YAML and as JSON.

Both notations have sections with named fields, and a `SettingsFormat` says how fields and values are taken from a
node. A missing field takes its default, an unknown one is passed over, and one that occurs twice is an error.
`Settings.ofYaml?` reads the file; a file of blanks means all defaults.
-/

namespace Reaper

/-- How settings are taken from the nodes of a data format. -/
structure SettingsFormat (ν : Type) where
  /-- the fields of a section with the given field names -/
  fields? : List String → ν → Option (List (String × ν))
  /-- a natural number up to a limit -/
  natural? : Nat → ν → Option Nat
  number? : ν → Option Binary64
  truth? : ν → Option Bool
  text? : ν → Option String
  optionalText? : ν → Option (Option String)

namespace SettingsFormat

variable {ν : Type} (f : SettingsFormat ν)

/-- The fields of a section, none of the known ones twice. -/
def section? (names : List String) (node : ν) : Option (List (String × ν)) := do
  let fields ← f.fields? names node
  if names.all fun n => (fields.filter (·.1 == n)).length ≤ 1 then some fields else none

/-- A field, or its default when it is missing. -/
def field? {α : Type} (fields : List (String × ν)) (name : String) (default : α) (read : ν → Option α) : Option α :=
  match Dictionary.lookup name fields with
  | some node => read node
  | none => some default

def retry? (node : ν) : Option RetrySettings := do
  let d : RetrySettings := {}
  let s ← f.section? ["maxAttempts", "initialMillis", "factor", "jitter", "maxDelaySeconds"] node
  some
    { maxAttempts := ← field? s "maxAttempts" d.maxAttempts (f.natural? (UInt32.size - 1))
      initialMillis := ← field? s "initialMillis" d.initialMillis (f.natural? (UInt64.size - 1))
      factor := ← field? s "factor" d.factor f.number?
      jitter := ← field? s "jitter" d.jitter f.number?
      maxDelaySeconds := ← field? s "maxDelaySeconds" d.maxDelaySeconds (f.natural? (UInt64.size - 1)) }

def watch? (node : ν) : Option WatchSettings := do
  let d : WatchSettings := {}
  let s ← f.section? ["readyTimeoutSeconds"] node
  some { readyTimeoutSeconds := ← field? s "readyTimeoutSeconds" d.readyTimeoutSeconds (f.natural? (UInt64.size - 1)) }

def election? (d : ElectionSettings) (node : ν) : Option ElectionSettings := do
  let s ← f.section? ["enabled", "leaseName", "leaseNamespace", "leaseDurationSeconds", "renewIntervalSeconds"] node
  some
    { enabled := ← field? s "enabled" d.enabled f.truth?
      leaseName := ← field? s "leaseName" d.leaseName f.text?
      leaseNamespace := ← field? s "leaseNamespace" d.leaseNamespace f.text?
      leaseDurationSeconds := ← field? s "leaseDurationSeconds" d.leaseDurationSeconds (f.natural? (UInt64.size - 1))
      renewIntervalSeconds := ← field? s "renewIntervalSeconds" d.renewIntervalSeconds (f.natural? (UInt64.size - 1)) }

def server? (node : ν) : Option ServerSettings := do
  let d : ServerSettings := {}
  let s ← f.section? ["bindAddress"] node
  some { bindAddress := ← field? s "bindAddress" d.bindAddress f.text? }

def settings? (podNamespace : Option String) (node : ν) : Option Settings := do
  let d := Settings.initial podNamespace
  let s ← f.section?
    ["gcIntervalSeconds", "maxConcurrentEvaluations", "defaultMaxDeletionsPerSecond", "defaultBatchSize",
      "watchNamespace", "dryRun", "backoff", "watch", "leaderElection", "server"] node
  some
    { gcIntervalSeconds := ← field? s "gcIntervalSeconds" d.gcIntervalSeconds (f.natural? (UInt64.size - 1))
      maxConcurrentEvaluations :=
        ← field? s "maxConcurrentEvaluations" d.maxConcurrentEvaluations (f.natural? (UInt16.size - 1))
      defaultMaxDeletionsPerSecond :=
        ← field? s "defaultMaxDeletionsPerSecond" d.defaultMaxDeletionsPerSecond (f.natural? (UInt32.size - 1))
      defaultBatchSize := ← field? s "defaultBatchSize" d.defaultBatchSize (f.natural? (UInt32.size - 1))
      watchNamespace := ← field? s "watchNamespace" d.watchNamespace f.optionalText?
      dryRun := ← field? s "dryRun" d.dryRun f.truth?
      retry := ← field? s "backoff" d.retry f.retry?
      watch := ← field? s "watch" d.watch f.watch?
      election := ← field? s "leaderElection" d.election (f.election? d.election)
      server := ← field? s "server" d.server f.server? }

end SettingsFormat

namespace Yaml

/-- A scalar that has a type other than text: a plain one, or a block with the tag of that type. -/
def typed? (tag : String) : Node → Option String
  | .scalar _ .plain s => some s
  | .scalar (some t) .literal s => if t = Core.tagName tag then some s else none
  | _ => none

/-- A text: a scalar of any style. -/
def text? : Node → Option String
  | .scalar _ _ s => some s
  | _ => none

/-- A text, or none for null or nothing. -/
def optionalText? : Node → Option (Option String)
  | .scalar tag .plain s =>
    match tag with
    | none => some (if s.isEmpty || Core.isNull s then none else some s)
    | some t => if t = Core.tagName "null" then (if Core.isNull s then some none else none) else some (some s)
  | n => (text? n).map some

/-- Settings in a YAML document. -/
def settingsFormat (document : Node) : SettingsFormat Node :=
  let meant := document.meant
  { fields? := fun _ n =>
      match meant n with
      | .mapping entries => entries.mapM fun (e : Node × Node) => (text? (meant e.1)).map (·, e.2)
      | .scalar _ .plain "" => some []
      | _ => none
    natural? := fun limit n => ((typed? "int" (meant n)).bind Core.natural?).filter (· ≤ limit)
    number? := fun n => (typed? "float" (meant n)).bind Core.number?
    truth? := fun n => (typed? "bool" (meant n)).bind Core.truth?
    text? := fun n => text? (meant n)
    optionalText? := fun n => optionalText? (meant n) }

end Yaml

def Json.settingsFormat : SettingsFormat Json :=
  { fields? := fun names j =>
      match j.record? names with
      | some (.object fields) => some fields
      | _ => none
    natural? := fun limit => Json.natural? limit
    number? := fun j =>
      match j with
      | .int i => some (Binary64.ofInt i)
      | .float x => some x
      | _ => none
    truth? := Json.truth?
    text? := Json.text?
    optionalText? := Json.nullable? Json.text? }

namespace Settings

def ofYaml? (podNamespace : Option String) (text : String) : Option Settings :=
  if Text.isBlankText text then some (initial podNamespace)
  else
    (Yaml.document? text).bind fun document => (Yaml.settingsFormat document).settings? podNamespace document

/-- The settings that a JSON value holds. -/
def ofJson? (podNamespace : Option String) (j : Json) : Option Settings :=
  Json.settingsFormat.settings? podNamespace j

/-- The settings as JSON, with a way to write numbers that need not be whole. -/
def encode (number : Binary64 → Json) (s : Settings) : Json :=
  Json.ofPresent
    [("gcIntervalSeconds", some (Json.ofNat s.gcIntervalSeconds)),
      ("maxConcurrentEvaluations", some (Json.ofNat s.maxConcurrentEvaluations)),
      ("defaultMaxDeletionsPerSecond", some (Json.ofNat s.defaultMaxDeletionsPerSecond)),
      ("defaultBatchSize", some (Json.ofNat s.defaultBatchSize)),
      ("watchNamespace", s.watchNamespace.map .string), ("dryRun", some (.bool s.dryRun)),
      ("backoff", some (Json.ofFields
        [("maxAttempts", Json.ofNat s.retry.maxAttempts), ("initialMillis", Json.ofNat s.retry.initialMillis),
          ("factor", number s.retry.factor), ("jitter", number s.retry.jitter),
          ("maxDelaySeconds", Json.ofNat s.retry.maxDelaySeconds)])),
      ("watch", some (Json.ofFields [("readyTimeoutSeconds", Json.ofNat s.watch.readyTimeoutSeconds)])),
      ("leaderElection", some (Json.ofFields
        [("enabled", .bool s.election.enabled), ("leaseName", .string s.election.leaseName),
          ("leaseNamespace", .string s.election.leaseNamespace),
          ("leaseDurationSeconds", Json.ofNat s.election.leaseDurationSeconds),
          ("renewIntervalSeconds", Json.ofNat s.election.renewIntervalSeconds)])),
      ("server", some (Json.ofFields [("bindAddress", .string s.server.bindAddress)]))]

/-- Why settings cannot be read from a file. -/
inductive ReadError where
  | noSuchFile (path : String)
  | badPath (path : String)
  | malformed
  deriving DecidableEq, Repr

def ReadError.message : ReadError → String
  | noSuchFile path => "Failed to read config file " ++ path ++ ": No such file or directory (os error 2)"
  | badPath path => "Failed to read config file " ++ path ++ ": file name contained an unexpected NUL byte"
  | malformed => "Failed to parse config YAML"

/-- The error of reading a path at which there is no file. -/
def ReadError.ofMissing (path : String) : ReadError :=
  if path.toList.contains '\x00' then .badPath path else .noSuchFile path

def ofFile (podNamespace : Option String) (text : String) : Except ReadError Settings :=
  match ofYaml? podNamespace text with
  | some s => .ok s
  | none => .error .malformed

end Settings

end Reaper

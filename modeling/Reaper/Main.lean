import Reaper.Json.Printer
import Reaper.Policy.Definition

/-!
The command line: prints the definition of the policy resource, which a cluster needs before it can hold policies.

JSON is a part of YAML, so the output can be applied as it is.
-/

/-- Prints the definition of the policy resource. -/
def main : IO Unit := IO.println Reaper.Policy.definition.text

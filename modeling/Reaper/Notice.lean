import Reaper.Text.Digits

/-!
Notices: what is reported about a policy as an event.
-/

namespace Reaper

/-- How grave a notice is. -/
inductive Severity where
  | normal
  | warning
  deriving DecidableEq, Repr

def Severity.text : Severity → String
  | normal => "Normal"
  | warning => "Warning"

/-- An event about a policy. -/
structure Notice where
  severity : Severity
  reason : String
  message : String
  deriving DecidableEq, Repr

namespace Notice

def deletionFailed (label message : String) : Notice :=
  ⟨.warning, "DeletionFailed", "Failed to delete " ++ label ++ ": " ++ message⟩

def invalidPolicy (problems : List String) : Notice :=
  ⟨.warning, "InvalidPolicy", "; ".intercalate problems⟩

/-- The policy cannot be served. -/
def watchFailed (error : String) : Notice := ⟨.warning, "WatchFailed", error⟩

def resourceDeleted (count : Nat) : Notice :=
  ⟨.normal, "ResourceDeleted", "Deleted " ++ Text.natText count ++ " expired resource(s)"⟩

def dryRun (count : Nat) : Notice :=
  ⟨.normal, "DryRun", "Dry run: " ++ Text.natText count ++ " resource(s) would be deleted"⟩

end Notice

end Reaper

/-!
# Outcomes of items

An item of a batch is one attempt at a package. Either its symbols are recorded, or a
record of its latest version is known already, or it is skipped for a reason.
-/

namespace ApiInventory.Batch

/-- Why an item is skipped. -/
inductive Skip where
  | unsafeName
  | unresolved
  | notDownloaded
  | notUnpacked (detail : String)
  | nothingFound
  | failed (detail : String)
deriving DecidableEq, Repr

namespace Skip

def label : Skip → String
  | unsafeName => "invalid_name"
  | unresolved => "resolution"
  | notDownloaded => "fetch"
  | notUnpacked _ => "unpack"
  | nothingFound => "empty_extraction"
  | failed _ => "unexpected"

def message : Skip → String
  | unsafeName => "package name is not a valid record file name component"
  | unresolved => "failed to resolve latest version"
  | notDownloaded => "download produced no artifact"
  | notUnpacked detail => "failed to unpack artifact: " ++ detail
  | nothingFound => "no parseable python files"
  | failed detail => "unexpected failure: " ++ detail

/-- A failure for which there is no reason of its own, told from what was attempted down
to its cause. -/
def ofFailure (cause : String) (attempted : List String) : Skip :=
  .failed (attempted.foldl (fun told context => context ++ ": " ++ told) cause)

/-- A service broke down, perhaps with a message. -/
def ofBreakdown : Option String → Skip
  | none => .failed "panic"
  | some message => .failed ("panic: " ++ message)

end Skip

inductive Outcome where
  | recorded (record : String) (symbols : Nat)
  | known (token : String)
  | skipped (reason : Skip)
deriving DecidableEq, Repr

end ApiInventory.Batch

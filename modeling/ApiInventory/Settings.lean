import ApiInventory.Text.Blank
import ApiInventory.Text.Counter

/-!
# Settings

Five settings are taken from variables of the environment. Each depends on its own
variable alone. A value that does not fit leaves the default in place and gives one
warning.
-/

namespace ApiInventory

structure Settings where
  /-- Packages attempted in one run at most. -/
  batchSize : Nat
  timeLimitSecs : Nat
  resolveTimeoutSecs : Nat
  /-- Zero stands for no limit. -/
  downloadTimeoutSecs : Nat
  indexUrl : String
deriving DecidableEq, Repr

namespace Settings

def default : Settings where
  batchSize := 500
  timeLimitSecs := 3300
  resolveTimeoutSecs := 10
  downloadTimeoutSecs := 600
  indexUrl := "https://pypi.org/pypi"

def downloadTimeout (s : Settings) : Option Nat :=
  if s.downloadTimeoutSecs = 0 then none else some s.downloadTimeoutSecs

/-- Why a variable is not taken. -/
inductive Warning where
  | invalid (name value : String) (kept : Nat)
  | empty (name kept : String)
deriving DecidableEq, Repr

namespace Warning

/-- The variable that a warning is about. -/
def about : Warning → String
  | invalid name _ _ => name
  | empty name _ => name

def message : Warning → String
  | invalid name value kept =>
    "Invalid " ++ name ++ " value: " ++ value ++ ", using default: " ++ toString kept
  | empty name kept => "Empty " ++ name ++ ", using default: " ++ kept

end Warning

/-- The variables, in the order in which they are looked up. -/
inductive Variable where
  | batchSize
  | timeLimit
  | resolveTimeout
  | downloadTimeout
  | indexUrl
deriving DecidableEq, Repr

def Variable.name : Variable → String
  | batchSize => "SIGDB_BATCH_SIZE"
  | timeLimit => "SIGDB_TIME_LIMIT_SECS"
  | resolveTimeout => "SIGDB_RESOLVE_TIMEOUT_SECS"
  | downloadTimeout => "SIGDB_DOWNLOAD_TIMEOUT_SECS"
  | indexUrl => "SIGDB_INDEX_URL"

/-- A counter that is at least `least`. -/
def readNumber (v : Variable) (least kept : Nat) (value : Option String) :
    Nat × List Warning :=
  match value with
  | none => (kept, [])
  | some text =>
    match Text.counter? text.toList with
    | some n => if least ≤ n then (n, []) else (kept, [.invalid v.name text kept])
    | none => (kept, [.invalid v.name text kept])

/-- A text that is not blank, without the white space around it. -/
def readText (v : Variable) (kept : String) (value : Option String) :
    String × List Warning :=
  match value with
  | none => (kept, [])
  | some text =>
    if Text.trim text.toList = [] then (kept, [.empty v.name kept])
    else (Text.trimmed text, [])

/-- The settings of an environment, and the warnings about it. -/
def ofEnvironment (lookup : String → Option String) : Settings × List Warning :=
  let d := default
  let batch := readNumber .batchSize 1 d.batchSize (lookup Variable.batchSize.name)
  let time := readNumber .timeLimit 0 d.timeLimitSecs (lookup Variable.timeLimit.name)
  let resolve :=
    readNumber .resolveTimeout 1 d.resolveTimeoutSecs (lookup Variable.resolveTimeout.name)
  let download :=
    readNumber .downloadTimeout 0 d.downloadTimeoutSecs (lookup Variable.downloadTimeout.name)
  let url := readText .indexUrl d.indexUrl (lookup Variable.indexUrl.name)
  ({ batchSize := batch.1
     timeLimitSecs := time.1
     resolveTimeoutSecs := resolve.1
     downloadTimeoutSecs := download.1
     indexUrl := url.1 },
    batch.2 ++ time.2 ++ resolve.2 ++ download.2 ++ url.2)

end Settings

end ApiInventory

import ApiInventory.Command.Line

/-!
# Invocations

What the program can be asked to do, and the command lines that ask for it.
-/

namespace ApiInventory.Command

/-- How files of releases are downloaded. -/
inductive FetchMethod where
  | index
  | installer
deriving DecidableEq, Repr

structure RunOptions where
  packages : String
  output : String
  checkpoint : String
  batchSize : Option Nat
  timeLimitSecs : Option Nat
  method : FetchMethod
  installer : String
  indexUrl : Option String
deriving DecidableEq, Repr

inductive Task where
  | run (options : RunOptions)
  | extract (root : String) (output : Option String)
  | encodeVersion (version : String)
  | status (packages checkpoint : String)
  | reset (checkpoint : String)
deriving DecidableEq, Repr

/-- The paths at which a task looks or leaves something. -/
def Task.paths : Task → List String
  | run o => [o.packages, o.output, o.checkpoint]
  | extract root output => root :: output.toList
  | encodeVersion _ => []
  | status packages checkpoint => [packages, checkpoint]
  | reset checkpoint => [checkpoint]

structure Invocation where
  isVerbose : Bool
  task : Task
deriving DecidableEq, Repr

/-! ## Shapes -/

def helpOption : Parameter := ⟨"help", some 'h', .help⟩

def verboseOption : Parameter := ⟨"verbose", some 'v', .switch⟩

def taking (name : String) (kind : ValueKind) : Parameter := ⟨name, none, .takes kind⟩

def packagesOption : Parameter := taking "packages" .path

def checkpointOption : Parameter := taking "checkpoint" .path

inductive Subcommand where
  | run
  | extract
  | encodeVersion
  | status
  | reset
deriving DecidableEq, Repr

namespace Subcommand

def all : List Subcommand := [run, extract, encodeVersion, status, reset]

def name : Subcommand → String
  | run => "run"
  | extract => "extract"
  | encodeVersion => "encode-version"
  | status => "status"
  | reset => "reset"

def ofName? (name : String) : Option Subcommand := all.find? fun c => c.name = name

def options : Subcommand → List Parameter
  | run => [packagesOption, taking "output" .path, checkpointOption,
      taking "batch-size" (.counter 1), taking "time-limit-secs" (.counter 0),
      taking "fetcher" (.choice ["http", "pip"]), taking "pip" .text, taking "index-url" .text]
  | extract => [⟨"output", some 'o', .takes .path⟩]
  | encodeVersion => []
  | status => [packagesOption, checkpointOption]
  | reset => [checkpointOption]

def operand : Subcommand → Option Parameter
  | extract => some (taking "root" .path)
  | encodeVersion => some (taking "version" .text)
  | run | status | reset => none

def shape (c : Subcommand) : Shape where
  options := c.options ++ [verboseOption, helpOption]
  operand := c.operand
  subcommands := []

end Subcommand

def helpWord : String := "help"

def mainShape : Shape where
  options := [verboseOption, helpOption, ⟨"version", some 'V', .version⟩]
  operand := none
  subcommands := Subcommand.all.map Subcommand.name ++ [helpWord]

/-! ## Reading -/

def counterOf (r : Reading) (name : String) : Option Nat :=
  (r.value? name).bind fun v => Text.counter? v.toList

def valueOr (r : Reading) (name kept : String) : String := (r.value? name).getD kept

def packagesOf (r : Reading) : String := valueOr r "packages" "packages.txt"

def checkpointOf (r : Reading) : String := valueOr r "checkpoint" "progress.txt"

/-- The task that a subcommand stands for with what was given to it. -/
def Subcommand.task (c : Subcommand) (r : Reading) : Task :=
  match c with
  | .run => .run
    { packages := packagesOf r
      output := valueOr r "output" "lib_db"
      checkpoint := checkpointOf r
      batchSize := counterOf r "batch-size"
      timeLimitSecs := counterOf r "time-limit-secs"
      method := if r.value? "fetcher" = some "pip" then .installer else .index
      installer := valueOr r "pip" "pip"
      indexUrl := r.value? "index-url" }
  | .extract => .extract (valueOr r "root" "") (r.value? "output")
  | .encodeVersion => .encodeVersion (valueOr r "version" "")
  | .status => .status (packagesOf r) (checkpointOf r)
  | .reset => .reset (checkpointOf r)

/-- Help may be asked for about the program or one subcommand. -/
def helpRequest : List String → Rejection
  | [] => .helpWanted
  | [name] => if mainShape.subcommands.contains name then .helpWanted else .invalidSubcommand
  | _ :: _ :: _ => .invalidSubcommand

/-- Read what follows the name of a subcommand. `before` is what was read in front of it. -/
def ofSubcommand (before : Reading) (c : Subcommand) (arguments : List String) :
    Except Rejection Invocation := do
  let r ← Reading.all c.shape arguments
  return { isVerbose := before.has "verbose" || r.has "verbose", task := c.task r }

/-- Read arguments up to the name of a subcommand, and go on with that. -/
def readFrom (r : Reading) : List String → Except Rejection Invocation
  | [] => .error (if r.given.isEmpty then .nothingGiven else .missingSubcommand)
  | argument :: rest =>
    let subcommand := if r.onlyOperands then none else Subcommand.ofName? argument
    match subcommand with
    | some c => ofSubcommand r c rest
    | none =>
      if !r.onlyOperands && argument = helpWord then .error (helpRequest rest)
      else
        match r.step mainShape argument with
        | .error e => .error e
        | .ok r => readFrom r rest

def Invocation.ofArguments (arguments : List String) : Except Rejection Invocation :=
  readFrom .start arguments

end ApiInventory.Command

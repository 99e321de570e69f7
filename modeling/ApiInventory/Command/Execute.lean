import ApiInventory.Batch.Deadline
import ApiInventory.Batch.PackageList
import ApiInventory.Batch.Run
import ApiInventory.Batch.Status
import ApiInventory.Command.Invocation
import ApiInventory.Index.Client
import ApiInventory.Index.Installer
import ApiInventory.Settings

/-!
# Carrying out commands

A command changes the files and prints a text. All it needs from outside, the web,
programs, a clock and the environment, is given to it as its surroundings.
-/

namespace ApiInventory.Command

open Files (FileTree Place)

/-- How the program ends. The message of a failure says what was being done, on the whole. -/
inductive Ending where
  | success
  | failure (message : String)
  | rejected (reason : Rejection)
  /-- The program cannot go on. -/
  | crash (message : String)
deriving DecidableEq, Repr

def Ending.code : Ending → Nat
  | success => 0
  | rejected .helpWanted | rejected .versionWanted => 0
  | failure _ => 1
  | rejected _ => 2
  | crash _ => 101

def Ending.message : Ending → String
  | success => ""
  | failure message | crash message => message
  | rejected reason => reason.message

/-- What the program finds around it. -/
structure Surroundings (σ : Type) where
  directory : Place
  environment : String → Option String
  /-- When the program was started. -/
  started : Nat
  now : σ → Nat × σ
  web : Index.Web σ
  programs : Index.Programs σ
  accepts : σ → Bool × σ

/-- What the program leaves behind. -/
structure Report (σ : Type) where
  ending : Ending
  output : String
  tree : FileTree
  outside : σ

variable {σ : Type} (x : Surroundings σ)

/-- Where work areas are made. -/
def temporaryDirectory : String :=
  match x.environment "TMPDIR" with
  | none => "/tmp"
  | some "" => "."
  | some path => path

def Surroundings.settings : Settings := (Settings.ofEnvironment x.environment).1

namespace RunOptions

variable (o : RunOptions)

/-- A run goes by its options first, then by the settings. -/
def effectiveBatchSize (s : Settings) : Nat := o.batchSize.getD s.batchSize

def effectiveTimeLimitSecs (s : Settings) : Nat := o.timeLimitSecs.getD s.timeLimitSecs

def effectiveIndexUrl (s : Settings) : String := o.indexUrl.getD s.indexUrl

/-- The services of a run that goes by the given options. -/
def services : Batch.Services σ where
  now := x.now
  resolve package s :=
    let (version, s) :=
      (Index.Client.mk (o.effectiveIndexUrl x.settings)).resolve x.web package s
    (.answer version, s)
  fetch package version area s :=
    let (files, area, s) :=
      match o.method with
      | .index => (Index.Client.mk (o.effectiveIndexUrl x.settings)).fetch x.web package version
          area [] Batch.WorkArea.downloads s
      | .installer => (Index.Installer.mk o.installer).fetch x.programs package version area []
          Batch.WorkArea.downloads s
    (.answer files, area, s)
  unpack archive area s :=
    let (reply, area) := Batch.unpackInArea archive area
    (reply, area, s)
  accepts := x.accepts

def desk : Batch.Desk where
  directory := x.directory
  store := ⟨o.output⟩
  checkpoint := o.checkpoint
  temporary := temporaryDirectory x

end RunOptions

/-- The packages of a list that is a text file. -/
def packagesIn? (t : FileTree) (path : String) : Option (List String) :=
  match t.read x.directory path with
  | .error _ => none
  | .ok content => (Text.decode? content).map Batch.packageNames

def printed (v : Json) : String := v.pretty ++ "\n"

def unreadableList (path : String) : Ending := .failure ("read " ++ path)

/-- A run once there is a list and a deadline. -/
def runBatch (o : RunOptions) (packages : List String) (deadline : Nat) (t : FileTree) (s : σ) :
    Report σ :=
  let desk := o.desk x
  let opened := desk.store.create t x.directory
  match opened.result with
  | .error e => ⟨.failure e.heading, "", opened.tree, s⟩
  | .ok () =>
    let limits : Batch.Limits := ⟨o.effectiveBatchSize x.settings, deadline⟩
    match Batch.run (o.services x) desk limits packages ⟨opened.tree, s, []⟩ with
    | (w, .error e) => ⟨.failure e.message, "", w.tree, w.outside⟩
    | (w, .ok summary) => ⟨.success, printed summary.toJson, w.tree, w.outside⟩

def run (o : RunOptions) (t : FileTree) (s : σ) : Report σ :=
  match packagesIn? x t o.packages with
  | none => ⟨unreadableList o.packages, "", t, s⟩
  | some packages =>
    match Batch.deadline? x.started (o.effectiveTimeLimitSecs x.settings) with
    | none => ⟨.crash "the deadline is out of range", "", t, s⟩
    | some deadline => runBatch x o packages deadline t s

def extract (root : String) (output : Option String) (t : FileTree) (s : σ) : Report σ :=
  let (table, _) := Source.extractDirectory t x.directory root
  let text := table.pretty ++ "\n"
  match output with
  | none => ⟨.success, text, t, s⟩
  | some path =>
    let (accepted, s) := x.accepts s
    let attempt := t.replaceFile x.directory path (Text.encode text) accepted
    match attempt.result with
    | .ok () => ⟨.success, "", attempt.tree, s⟩
    | .error e => ⟨.failure e.heading, "", attempt.tree, s⟩

/-- What is printed about a version. -/
def versionJson (version : String) : Json :=
  .ofMembers [("encoded", .text (Batch.versionToken version)),
    ("sortable", .bool (Batch.isSortable version)), ("version", .text version)]

def status (packages checkpoint : String) (t : FileTree) (s : σ) : Report σ :=
  match packagesIn? x t packages with
  | none => ⟨unreadableList packages, "", t, s⟩
  | some names =>
    let (position, _) := Batch.Checkpoint.load t x.directory checkpoint
    ⟨.success, printed (Batch.Status.ofList names position).toJson, t, s⟩

def reset (checkpoint : String) (t : FileTree) (s : σ) : Report σ :=
  let (accepted, s) := x.accepts s
  let attempt := Batch.Checkpoint.save t x.directory checkpoint 0 accepted
  match attempt.result with
  | .ok () => ⟨.success, "", attempt.tree, s⟩
  | .error e => ⟨.failure e.heading, "", attempt.tree, s⟩

def execute (c : Task) (t : FileTree) (s : σ) : Report σ :=
  match c with
  | .run options => run x options t s
  | .extract root output => extract x root output t s
  | .encodeVersion version => ⟨.success, printed (versionJson version), t, s⟩
  | .status packages checkpoint => status x packages checkpoint t s
  | .reset checkpoint => reset x checkpoint t s

/-! ## The program -/

def programName : String := "sigdb"

def versionText : String := programName ++ " 0.1.0\n"

def helpText : String :=
  "Python package API signature database builder\n\n" ++
  "Usage: " ++ programName ++ " [OPTIONS] <COMMAND>\n\n" ++
  "Commands:\n" ++
  "  run             Process the next batch of packages and exit\n" ++
  "  extract         Extract signatures from a local source tree and print them as JSON\n" ++
  "  encode-version  Print the sortable token for a version string\n" ++
  "  status          Show where the next run will resume\n" ++
  "  reset           Restart the next run from the first package\n" ++
  "  help            Print this message\n\n" ++
  "Options:\n" ++
  "  -v, --verbose  Log debug output\n" ++
  "  -h, --help     Print help\n" ++
  "  -V, --version  Print version\n"

/-- What is printed for a command line that leads to no command. -/
def rejectionText : Rejection → String
  | .helpWanted => helpText
  | .versionWanted => versionText
  | _ => ""

/-- Carry out a command line. -/
def program (arguments : List String) (t : FileTree) (s : σ) : Report σ :=
  match Invocation.ofArguments arguments with
  | .error reason => ⟨.rejected reason, rejectionText reason, t, s⟩
  | .ok invocation => execute x invocation.task t s

end ApiInventory.Command

import ApiInventory.Command.Execute

/-!
# The program

The program reads the files that its command is about, carries the command out, and then
puts what changed back on the disk. It has no way to the web and starts no
programs, so that every package of a run is skipped.
-/

namespace ApiInventory

open Files (FileTree Place Entry)

/-- The variables that a command may look up. -/
def variableNames : List String :=
  [Settings.Variable.batchSize, .timeLimit, .resolveTimeout, .downloadTimeout, .indexUrl].map
    Settings.Variable.name ++ ["TMPDIR"]

def diskPath (p : Place) : String := "/" ++ Files.Path.joinSteps p

/-- The place that a path means when it is seen from a directory. -/
def placeOf (directory : Place) (path : String) : Place :=
  (Files.FileTree.pathSteps path).foldl
    (fun p step =>
      if step = "." then p else if step = ".." then p.dropLast else p ++ [step])
    (if Files.Path.isAbsolute path then [] else directory)

/-- Read a file or all that is below a directory. Links are left out. -/
partial def readBelow (t : FileTree) (p : Place) : IO FileTree := do
  let path := (← IO.currentDir) / diskPath p
  match (← path.symlinkMetadata).type with
  | .file => return t.set p (.file (← IO.FS.readBinFile path))
  | .dir =>
    let mut t := t.set p .directory
    for e in ← path.readDir do
      t ← readBelow t (p ++ [e.fileName])
    return t
  | _ => return t

/-- Read what is at a place, and note the directories above it. -/
def readPlace (t : FileTree) (p : Place) : IO FileTree := do
  let mut t := t
  for n in List.range p.length do
    let above := p.take n
    if (t.get? above).isNone && (← ((← IO.currentDir) / diskPath above).isDir) then
      t := t.set above .directory
  if ← ((← IO.currentDir) / diskPath p).pathExists then readBelow t p else return t

/-- Put an entry on the disk, a file as a whole. -/
def writeEntry (p : Place) : Entry → IO Unit
  | .directory => IO.FS.createDirAll (diskPath p)
  | .file content => do
    let temporary := diskPath p ++ ".new"
    IO.FS.writeBinFile temporary content
    IO.FS.rename temporary (diskPath p)
  | .link _ => pure ()

/-- Put on the disk what differs between two trees, directories first. -/
def writeChanges (old new : FileTree) : IO Unit := do
  let changed := new.entries.filter fun (p, e) => old.get? p ≠ some e
  let (directories, files) := changed.partition fun (_, e) => e = .directory
  for (p, e) in directories ++ files do
    writeEntry p e

/-- The surroundings of a process, its clock standing still. -/
def processSurroundings (directory : Place) (environment : List (String × String))
    (started : Nat) : Command.Surroundings Unit where
  directory := directory
  environment name := environment.lookup name
  started := started
  now s := (started, s)
  web _ s := (.lost, s)
  programs _ _ t s := (.notStarted, t, s)
  accepts s := (true, s)

end ApiInventory

open ApiInventory in
def main (arguments : List String) : IO UInt32 := do
  let started ← IO.monoNanosNow
  let directory := Files.FileTree.pathSteps (← IO.currentDir).toString
  let mut environment := []
  for name in variableNames do
    if let some value ← IO.getEnv name then environment := environment ++ [(name, value)]
  let x := processSurroundings directory environment started
  let paths :=
    match Command.Invocation.ofArguments arguments with
    | .ok invocation => invocation.task.paths
    | .error _ => []
  let mut tree : Files.FileTree := ∅
  for path in Command.temporaryDirectory x :: paths do
    if path ≠ "" then
      if path = Command.temporaryDirectory x then
        if ← ((← IO.currentDir) / path).isDir then
          tree := tree.set (placeOf directory path) .directory
      else tree ← readPlace tree (placeOf directory path)
  let report := Command.program x arguments tree ()
  writeChanges tree report.tree
  IO.print report.output
  if report.ending.message ≠ "" then IO.eprintln ("error: " ++ report.ending.message)
  return UInt32.ofNat report.ending.code

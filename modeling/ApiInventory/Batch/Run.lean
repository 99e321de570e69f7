import ApiInventory.Batch.Item

/-!
# Runs

A run attempts the packages of a list from the checkpoint on: as many as a batch
holds, but none once the deadline has come. After each item the checkpoint moves on to the
next one, so that a run that is cut off loses at most the item it was at. At the end of
the list the checkpoint goes back to the start.
-/

namespace ApiInventory.Batch

open Files (FileTree)

/-- A checkpoint that could not be saved ends a run. -/
inductive RunError where
  | saveFailed (position : Nat)
  | resetFailed
deriving DecidableEq, Repr

def RunError.message : RunError → String
  | saveFailed position => "save checkpoint " ++ toString position
  | resetFailed => "reset checkpoint"

/-- How many items came to what. -/
structure Tally where
  recorded : Nat
  known : Nat
  skipped : Nat
deriving DecidableEq, Repr

namespace Tally

def zero : Tally := ⟨0, 0, 0⟩

def count (t : Tally) : Outcome → Tally
  | .recorded _ _ => { t with recorded := t.recorded + 1 }
  | .known _ => { t with known := t.known + 1 }
  | .skipped _ => { t with skipped := t.skipped + 1 }

def attempted (t : Tally) : Nat := t.recorded + t.known + t.skipped

@[simp] theorem attempted_zero : zero.attempted = 0 := rfl

@[simp] theorem attempted_count (t : Tally) (o : Outcome) :
    (t.count o).attempted = t.attempted + 1 := by
  cases o <;> simp [count, attempted] <;> omega

end Tally

structure Summary where
  total : Nat
  start : Nat
  nextCheckpoint : Nat
  tally : Tally
  timeLimited : Bool
  passCompleted : Bool
deriving DecidableEq, Repr

/-- The summary with its members in the order in which it is printed. -/
def Summary.toJson (s : Summary) : Json :=
  .ofMembers [("total", .natural s.total), ("start", .natural s.start),
    ("next_checkpoint", .natural s.nextCheckpoint), ("attempted", .natural s.tally.attempted),
    ("written", .natural s.tally.recorded), ("cached", .natural s.tally.known),
    ("skipped", .natural s.tally.skipped), ("time_limited", .bool s.timeLimited),
    ("pass_completed", .bool s.passCompleted)]

/-- The most items that a run attempts, and the time from which it starts no more. -/
structure Limits where
  batchSize : Nat
  deadline : Nat
deriving DecidableEq, Repr

/-- Where a run would end if there was enough time. -/
def windowEnd (total start batchSize : Nat) : Nat := min (start + max batchSize 1) total

/-- The packages of a run with their positions. -/
def window (packages : List String) (start batchSize : Nat) : List (String × Nat) :=
  (packages.zipIdx.take (windowEnd packages.length start batchSize)).drop start

/-- How far a run has come. -/
structure Reached where
  tally : Tally
  /-- The position to go on from. -/
  next : Nat
  timeLimited : Bool
deriving DecidableEq, Repr

variable {σ : Type} (s : Services σ) (d : Desk)

/-- Move the checkpoint. -/
def saveCheckpoint (position : Nat) (w : Progress σ) :
    Progress σ × Except Files.FileError Unit :=
  let (accepted, outside) := s.accepts w.outside
  let attempt := Checkpoint.save w.tree d.directory d.checkpoint position accepted
  ({ w with tree := attempt.tree, outside := outside }, attempt.result)

/-- An item of a run, from its start until the checkpoint has moved on, or has failed to. -/
structure Turn (σ : Type) where
  package : String
  position : Nat
  before : Progress σ
  outcome : Outcome
  /-- When the item has come to its outcome. -/
  attempted : Progress σ
  /-- After the attempt to move the checkpoint. -/
  after : Progress σ
  saved : Except Files.FileError Unit

/-- Attempt a package and move the checkpoint on to the next one. -/
def takeTurn (package : String) (position : Nat) (w : Progress σ) : Turn σ :=
  let (attempted, outcome) := Item.attempt s d package w
  let attempted := attempted.note (.finished package outcome)
  let (after, saved) := saveCheckpoint s d (position + 1) attempted
  { package, position, before := w, outcome, attempted, after, saved }

/-- Attempt packages one after the other. -/
def attemptAll (deadline : Nat) : List (String × Nat) → Reached → Progress σ →
    Progress σ × Except RunError Reached
  | [], r, w => (w, .ok r)
  | (package, position) :: rest, r, w =>
    let (time, outside) := s.now w.outside
    let w := { w with outside := outside }
    if deadline ≤ time then
      (w.note (.outOfTime package position), .ok { r with timeLimited := true })
    else
      let turn := takeTurn s d package position w
      match turn.saved with
      | .error _ => (turn.after, .error (.saveFailed (position + 1)))
      | .ok () =>
        attemptAll deadline rest
          { r with tally := r.tally.count turn.outcome, next := position + 1 } turn.after

/-- The turns that are taken in the course of it. -/
def turnsOf (deadline : Nat) : List (String × Nat) → Progress σ → List (Turn σ)
  | [], _ => []
  | (package, position) :: rest, w =>
    let (time, outside) := s.now w.outside
    let w := { w with outside := outside }
    if deadline ≤ time then []
    else
      let turn := takeTurn s d package position w
      turn ::
        match turn.saved with
        | .error _ => []
        | .ok () => turnsOf deadline rest turn.after

/-- End a run. The checkpoint goes back to the start if the list is through. -/
def finish (total start : Nat) (r : Reached) (w : Progress σ) :
    Progress σ × Except RunError Summary :=
  let summary := fun next completed =>
    { total, start, nextCheckpoint := next, tally := r.tally
      timeLimited := r.timeLimited, passCompleted := completed : Summary }
  if total ≤ r.next then
    match saveCheckpoint s d 0 w with
    | (w, .error _) => (w, .error .resetFailed)
    | (w, .ok ()) => (w, .ok (summary 0 true))
  else (w, .ok (summary r.next false))

/-- The position to start from, with a note if the checkpoint is no good. -/
def startPosition (w : Progress σ) : Nat × Progress σ :=
  match Checkpoint.load w.tree d.directory d.checkpoint with
  | (start, none) => (start, w)
  | (start, some warning) => (start, w.note (.checkpointWarning warning))

/-- One run over a list of packages. -/
def run (limits : Limits) (packages : List String) (w : Progress σ) :
    Progress σ × Except RunError Summary :=
  let (start, w) := startPosition d w
  match attemptAll s d limits.deadline (window packages start limits.batchSize)
      ⟨.zero, start, false⟩ w with
  | (w, .error e) => (w, .error e)
  | (w, .ok r) => finish s d packages.length start r w

/-- The turns of a run. -/
def turns (limits : Limits) (packages : List String) (w : Progress σ) : List (Turn σ) :=
  let (start, w) := startPosition d w
  turnsOf s d limits.deadline (window packages start limits.batchSize) w

end ApiInventory.Batch

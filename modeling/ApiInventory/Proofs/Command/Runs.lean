import ApiInventory.Main
import ApiInventory.Proofs.Batch.Turns
import ApiInventory.Proofs.Text.Decimal
import Mathlib

/-!
# What the run command performs

A run that finds its list and its store, and whose time limit leads to a deadline, performs a
batch and nothing else: what it leaves is what the batch leaves, and it ends with the summary of
the batch or with the checkpoint that could not be saved (`run_performs`).
-/

namespace ApiInventory.Command

open Files (FileTree)
open Batch (Progress Summary RunError Turn Limits)

variable {σ : Type}

/-- What a run needs to begin: a list that can be read, and a store that can be opened. -/
structure Ready (x : Surroundings σ) (o : RunOptions) (t : FileTree) (packages : List String) :
    Prop where
  readable : packagesIn? x t o.packages = some packages
  opened : ((o.desk x).store.create t x.directory).result = .ok ()

namespace RunOptions

variable (o : RunOptions) (x : Surroundings σ) (packages : List String) (t : FileTree) (s : σ)

/-- There is a time at which the run has to end. -/
def HasDeadline : Prop :=
  x.started / Batch.nanosecondsPerSecond + o.effectiveTimeLimitSecs x.settings <
    Batch.secondsBound

/-- The limits of a run whose time limit leads to a deadline. -/
def limits : Limits :=
  ⟨o.effectiveBatchSize x.settings,
    x.started + o.effectiveTimeLimitSecs x.settings * Batch.nanosecondsPerSecond⟩

/-- How things stand when the store has been opened. -/
def begun : Progress σ := ⟨((o.desk x).store.create t x.directory).tree, s, []⟩

/-- The batch of a run. -/
def batch : Progress σ × Except RunError Summary :=
  Batch.run (o.services x) (o.desk x) (o.limits x) packages (o.begun x t s)

/-- The items that a run attempts, one after the other. -/
def turns : List (Turn σ) :=
  Batch.turns (o.services x) (o.desk x) (o.limits x) packages (o.begun x t s)

end RunOptions

/-- A report that says what has become of a batch. -/
structure Performs (batch : Progress σ × Except RunError Summary) (report : Report σ) : Prop where
  tree : report.tree = batch.1.tree
  outside : report.outside = batch.1.outside
  /-- The run ends with its summary, or with a checkpoint that could not be saved. -/
  ends : (∃ summary, batch.2 = .ok summary ∧ report.ending = .success ∧
      report.output = printed summary.toJson) ∨
    ∃ e, batch.2 = .error e ∧ report.ending = .failure e.message ∧ report.output = ""

variable {x : Surroundings σ} {o : RunOptions} {packages : List String} {t : FileTree}

theorem Performs.of_ok {batch : Progress σ × Except RunError Summary} {report : Report σ}
    {summary : Summary} (performs : Performs batch report) (back : batch.2 = .ok summary) :
    report.ending = .success ∧ report.output = printed summary.toJson := by
  rcases performs.ends with ⟨summary', done, success, output⟩ | ⟨e, failed, _⟩
  · obtain rfl : summary' = summary := Except.ok.inj (done.symm.trans back)
    exact ⟨success, output⟩
  · cases failed.symm.trans back

theorem performs_runBatch (ready : Ready x o t packages) (s : σ) :
    Performs (o.batch x packages t s)
      (runBatch x o packages (o.limits x).deadline t s) := by
  have batch : o.batch x packages t s =
      Batch.run (o.services x) (o.desk x) (o.limits x) packages (o.begun x t s) := rfl
  rcases done : o.batch x packages t s with ⟨w, e | summary⟩
  all_goals
    rw [batch] at done
    simp only [RunOptions.limits, RunOptions.begun] at done
    simp only [runBatch, ready.opened, done, RunOptions.limits]
  · exact ⟨rfl, rfl, .inr ⟨e, rfl, rfl, rfl⟩⟩
  · exact ⟨rfl, rfl, .inl ⟨summary, rfl, rfl, rfl⟩⟩

/-- A run with a deadline performs its batch. -/
theorem run_performs (ready : Ready x o t packages) (timed : o.HasDeadline x) (s : σ) :
    Performs (o.batch x packages t s) (run x o t s) := by
  have deadline : Batch.deadline? x.started (o.effectiveTimeLimitSecs x.settings) =
      some (o.limits x).deadline := if_pos timed
  have performs := performs_runBatch ready s
  simp only [run, ready.readable, deadline]
  exact performs

/-- A run without one does not begin. -/
theorem run_crashes (readable : packagesIn? x t o.packages = some packages)
    (untimed : ¬o.HasDeadline x) (s : σ) :
    run x o t s = ⟨.crash "the deadline is out of range", "", t, s⟩ := by
  have deadline : Batch.deadline? x.started (o.effectiveTimeLimitSecs x.settings) = none :=
    if_neg untimed
  simp only [run, readable, deadline]

/-! ## A command line to try things with -/

/-- A tree with a list and a checkpoint. -/
def filesTree (list checkpoint : ByteArray) : FileTree :=
  ⟨[(["l"], .file list), (["c"], .file checkpoint)], []⟩

/-- A list of two packages, the first of which has been dealt with. -/
def listTree : FileTree := filesTree (Text.encode "a\nb\n") (Text.encode "1")

/-- Options that name the list and a path of the checkpoint, with a time limit or without. The index
has no address. -/
def listOptions (checkpoint : String) (limit : Option Nat) : RunOptions where
  packages := "l"
  output := "d"
  checkpoint := checkpoint
  batchSize := none
  timeLimitSecs := limit
  method := .index
  installer := "pip"
  indexUrl := some ""

/-- Surroundings in which nothing answers and the clock stands still. -/
abbrev silence : Surroundings Unit := processSurroundings [] [] 0

theorem read_list (list checkpoint : ByteArray) :
    (filesTree list checkpoint).read [] "l" = .ok list := by cbv

theorem read_checkpoint (list checkpoint : ByteArray) :
    (filesTree list checkpoint).read [] "c" = .ok checkpoint := by cbv

theorem opened_filesTree (list checkpoint : ByteArray) :
    ((Batch.RecordStore.mk "d").create (filesTree list checkpoint) []).result = .ok () := by cbv

theorem ready_of_list {t : FileTree} (list : t.read [] "l" = .ok (Text.encode "a\nb\n"))
    (opened : ((Batch.RecordStore.mk "d").create t []).result = .ok ()) (checkpoint : String)
    (limit : Option Nat) : Ready silence (listOptions checkpoint limit) t ["a", "b"] := by
  have names : Batch.packageNames "a\nb\n" = ["a", "b"] := by cbv
  refine ⟨?_, opened⟩
  show packagesIn? silence t "l" = _
  simp only [packagesIn?, silence, processSurroundings, list, Text.decode?_encode, names,
    Option.map_some]

theorem ready_listTree (checkpoint : String) (limit : Option Nat) :
    Ready silence (listOptions checkpoint limit) listTree ["a", "b"] :=
  ready_of_list (read_list _ _) (opened_filesTree _ _) checkpoint limit

theorem hasDeadline_listOptions (checkpoint : String) :
    (listOptions checkpoint none).HasDeadline silence := by
  show 0 / Batch.nanosecondsPerSecond + 3300 < Batch.secondsBound
  decide

end ApiInventory.Command

import ApiInventory.Proofs.Batch.Prediction
import ApiInventory.Proofs.Command.Runs
import ApiInventory.Proofs.Files.Spelling

/-!
# What the status command says of the next run

The status command prints what a run with the same list and checkpoint is about to do, provided
that nothing disturbs the run (`status_predicts`). Two things are in between. A run first makes the
directory of its store, and with that a checkpoint may come within reach that was out of reach
before; this needs a path through the very directory and out of it again
(`not_predicted_of_new_directory`), so that it is no matter once the store is there or the
checkpoint can be read (`told_begun_of_store`, `told_begun_of_read`). And a checkpoint that is saved
in the place of a link on its own path is lost for the status afterwards.
-/

namespace ApiInventory.Command

open Files (FileTree)
open Batch (Status told Undisturbed RunKeeps)

variable {σ : Type} {x : Surroundings σ} {o : RunOptions} {packages : List String} {t : FileTree}

/-- What the status command leaves when it has printed a status. -/
def statusReport (status : Status) (t : FileTree) (s : σ) : Report σ :=
  ⟨.success, printed status.toJson, t, s⟩

theorem status_eq {names : List String} (readable : packagesIn? x t o.packages = some names)
    (s : σ) : status x o.packages o.checkpoint t s =
      statusReport (Status.ofList names (told (o.desk x) t)) t s := by
  simp only [status, readable]
  rfl

/-- A store that is there is opened without a trace. -/
theorem told_begun_of_store (there : t.isDirectory x.directory o.output = true) (s : σ) :
    told (o.desk x) (o.begun x t s).tree = told (o.desk x) t := by
  obtain ⟨p, found⟩ := FileTree.isDirectory_eq_true_iff.mp there
  have same := FileTree.openDirectories_of_find (FileTree.find_eq_ok_iff.mpr found)
  have tree : (o.begun x t s).tree = t := congrArg Files.Attempt.tree same
  rw [tree]

/-- A checkpoint that can be read tells the same when the store has been opened. -/
theorem told_begun_of_read {content : ByteArray}
    (read : t.read x.directory o.checkpoint = .ok content) (s : σ) :
    told (o.desk x) (o.begun x t s).tree = told (o.desk x) t := by
  have later : (o.begun x t s).tree.read x.directory o.checkpoint = .ok content :=
    FileTree.read_makeDirectoriesAs read _ _
  exact congrArg Prod.fst (Batch.Checkpoint.load_congr (later.trans read.symm))

/-- **The status command predicts the run that follows.** The run has a list, a store and a deadline
that does not come, and all of its checkpoints are saved. Opening the store does not change what the
checkpoint tells, and each checkpoint is found where it is saved. Then the run ends with a summary
and does what the status says, and the status command, if it still finds a list, says afterwards
what the run has said to be next. -/
theorem status_predicts (ready : Ready x o t packages) (timed : o.HasDeadline x)
    (small : packages.length < Text.counterBound) (s : σ)
    (still : told (o.desk x) (o.begun x t s).tree = told (o.desk x) t)
    (undisturbed : Undisturbed (o.services x) (o.desk x) (o.limits x) packages (o.begun x t s))
    (keeps : RunKeeps (o.services x) (o.desk x) (o.limits x) packages (o.begun x t s)) :
    status x o.packages o.checkpoint t s =
        statusReport (Status.ofList packages (told (o.desk x) t)) t s ∧
      ∃ summary, (run x o t s).ending = .success ∧
        (run x o t s).output = printed summary.toJson ∧
        (Status.ofList packages (told (o.desk x) t)).Predicts
          (o.effectiveBatchSize x.settings) (o.turns x packages t s) summary ∧
        ∀ names, packagesIn? x (run x o t s).tree o.packages = some names → ∀ s',
          status x o.packages o.checkpoint (run x o t s).tree s' =
            statusReport (Status.ofList names summary.nextCheckpoint) (run x o t s).tree s' := by
  refine ⟨status_eq ready.readable s, ?_⟩
  obtain ⟨summary, back, predicts⟩ := Batch.run_predicted undisturbed
  have performs := run_performs ready timed s
  have told_after := Batch.told_after_run small keeps back
  rw [still] at predicts
  obtain ⟨success, output⟩ := performs.of_ok back
  refine ⟨summary, success, output, predicts, fun names readable s' => ?_⟩
  have next : told (o.desk x) (run x o t s).tree = summary.nextCheckpoint := by
    rw [performs.tree]
    exact told_after
  rw [status_eq readable, next]

/-! ## A list with a checkpoint -/

theorem noLinks_begun (checkpoint : String) :
    ((listOptions checkpoint none).begun silence listTree ()).tree.NoLinks := by
  have noLinks : listTree.NoLinks := FileTree.noLinks_of_entries (by simp [listTree, filesTree])
  exact (FileTree.makeDirectoriesAs_evolves (fun _ => True) _ _ _ _).noLinks noLinks

/-- Where the clock stands still, a run of the sample list is undisturbed if its checkpoints are
saved. -/
theorem undisturbed_listTree {checkpoint : String}
    (saved : ∀ turn ∈ (listOptions checkpoint none).turns silence ["a", "b"] listTree (),
      turn.saved = .ok ())
    (reset : (Batch.saveCheckpoint ((listOptions checkpoint none).services silence)
      ((listOptions checkpoint none).desk silence) 0
      (Batch.loop ((listOptions checkpoint none).services silence)
        ((listOptions checkpoint none).desk silence) ((listOptions checkpoint none).limits silence)
        ["a", "b"] ((listOptions checkpoint none).begun silence listTree ())).1).2 = .ok ()) :
    Undisturbed ((listOptions checkpoint none).services silence)
      ((listOptions checkpoint none).desk silence) ((listOptions checkpoint none).limits silence)
      ["a", "b"] ((listOptions checkpoint none).begun silence listTree ()) where
  saved := saved
  inTime := by
    intro w' r ends
    have early : ∀ u : Unit, (((listOptions checkpoint none).services silence).now u).1 <
        ((listOptions checkpoint none).limits silence).deadline := by
      intro u
      show 0 < 0 + (none.getD 3300) * Batch.nanosecondsPerSecond
      decide
    exact (Batch.run_course _ _ _ _ _).inTime early (congrArg Prod.snd ends)
  reset := by
    intro w' r ends _
    rw [ends] at reset
    exact reset

/-- The status command says that the second package is next, and so it is. -/
theorem status_predicts_of_listTree :
    status silence "l" "c" listTree () =
        statusReport (Status.ofList ["a", "b"] 1) listTree () ∧
      ∃ summary, (run silence (listOptions "c" none) listTree ()).ending = .success ∧
        (Status.ofList ["a", "b"] 1).Predicts 500
          ((listOptions "c" none).turns silence ["a", "b"] listTree ()) summary := by
  have tells : told ((listOptions "c" none).desk silence) listTree = 1 := by cbv
  have turns : ((listOptions "c" none).turns silence ["a", "b"] listTree ()).map (·.saved) =
      [.ok ()] := by cbv
  have saved : ∀ turn ∈ (listOptions "c" none).turns silence ["a", "b"] listTree (),
      turn.saved = .ok () := by
    intro turn member
    have listed := List.mem_map_of_mem (f := (·.saved)) member
    rw [turns] at listed
    exact List.mem_singleton.mp listed
  have undisturbed := undisturbed_listTree saved (by cbv)
  have predicts := status_predicts (ready_listTree "c" none)
    (hasDeadline_listOptions "c") (by decide) ()
    (told_begun_of_read (read_checkpoint _ _) ()) undisturbed
    (Batch.runKeeps_of_noLinks (noLinks_begun "c"))
  rw [tells] at predicts
  obtain ⟨prints, summary, success, -, holds, -⟩ := predicts
  exact ⟨prints, summary, success, holds⟩

/-- A list and a checkpoint, and a link that leads to where they are through a directory that is not
there. -/
def throughTree (list checkpoint : ByteArray) : FileTree :=
  ⟨[(["l"], .file list), (["c"], .file checkpoint), (["k"], .link "d/..")], []⟩

/-- The list of two packages and its checkpoint, with such a link. -/
def apartTree : FileTree := throughTree (Text.encode "a\nb\n") (Text.encode "1")

theorem ready_apartTree : Ready silence (listOptions "k/c" none) apartTree ["a", "b"] := by
  have list : ∀ list checkpoint : ByteArray,
      (throughTree list checkpoint).read [] "l" = .ok list := by
    intro list checkpoint
    cbv
  have opened : ∀ list checkpoint : ByteArray,
      ((Batch.RecordStore.mk "d").create (throughTree list checkpoint) []).result = .ok () := by
    intro list checkpoint
    cbv
  exact ready_of_list (list _ _) (opened _ _) "k/c" none

/-- A checkpoint that is out of reach until the store is there: the status command finds none, and
the run starts at the second package, though its checkpoints are saved and it is in time. -/
theorem not_predicted_of_new_directory :
    status silence "l" "k/c" apartTree () =
        statusReport (Status.ofList ["a", "b"] 0) apartTree () ∧
      ∃ summary, (run silence (listOptions "k/c" none) apartTree ()).output =
          printed summary.toJson ∧ summary.timeLimited = false ∧
        ¬(Status.ofList ["a", "b"] 0).Predicts 500
          ((listOptions "k/c" none).turns silence ["a", "b"] apartTree ()) summary := by
  have before : told ((listOptions "k/c" none).desk silence) apartTree = 0 := by cbv
  have back : ((listOptions "k/c" none).batch silence ["a", "b"] apartTree ()).2 =
      .ok ⟨2, 1, 0, ⟨0, 0, 1⟩, false, true⟩ := by cbv
  refine ⟨?_, ⟨2, 1, 0, ⟨0, 0, 1⟩, false, true⟩, ?_, rfl, fun predicts => ?_⟩
  · exact (status_eq ready_apartTree.readable ()).trans (by rw [before])
  · exact ((run_performs ready_apartTree (hasDeadline_listOptions "k/c") ()).of_ok back).2
  · cases predicts.start

end ApiInventory.Command

import ApiInventory.Proofs.Batch.Layout
import ApiInventory.Proofs.Batch.OpenDesk
import ApiInventory.Proofs.Files.AllOrNothing

/-!
# Passes that are interrupted

A pass over a list may be split into runs, and each run may be cut off anywhere between two of its
effects on the tree. If the services always do the same, then the pass leaves the tree that one
run would have left that was never disturbed (`interruption`).

The proof follows one quantity along the way. `Behaviour.sweep` is the rest of a pass, done in one
go; a tree is `OnTrack` if the rest of the pass from it leads where the whole pass would have
led. Recording a package does not change this, since the package is known afterwards when it
is attempted again, and neither does a checkpoint, since the rest of the pass is then shorter.

A record that takes the place of a link on the way to it is not known afterwards, but then the way
to the store is barred, and attempting the package again changes nothing either
(`Behaviour.settled_settled`). A checkpoint that does so can never be saved again, and no pass comes
to its end.
-/

namespace ApiInventory.Batch

open Files (FileTree Place Attempt)

/-! ## The rest of a pass -/

namespace Behaviour

variable (b : Behaviour) (d : Desk)

/-- The tree after an attempt at a package. -/
def settled (package : String) (t : FileTree) : FileTree :=
  (Item.attempt b.services d package ⟨t, ("", ""), []⟩).1.tree

/-- Attempt packages one after the other, whatever the time is, and reset the checkpoint. -/
def sweep : List (String × Nat) → FileTree → Attempt
  | [], t => Checkpoint.save t d.directory d.checkpoint 0 true
  | (package, position) :: rest, t =>
    let moved :=
      Checkpoint.save (b.settled d package t) d.directory d.checkpoint (position + 1) true
    match moved.result with
    | .error _ => moved
    | .ok () => sweep rest moved.tree

theorem sweep_cons_of_ok {package : String} {position : Nat} {rest : List (String × Nat)}
    {t : FileTree} (saved : (Checkpoint.save (b.settled d package t) d.directory d.checkpoint
      (position + 1) true).result = .ok ()) :
    b.sweep d ((package, position) :: rest) t =
      b.sweep d rest (Checkpoint.save (b.settled d package t) d.directory d.checkpoint
        (position + 1) true).tree := by
  rw [sweep]
  simp [saved]

/-- The rest of a pass depends on the tree that the next item leaves. -/
theorem sweep_congr {package : String} {position : Nat} {rest : List (String × Nat)}
    {t t' : FileTree} (same : b.settled d package t = b.settled d package t') :
    b.sweep d ((package, position) :: rest) t = b.sweep d ((package, position) :: rest) t' := by
  rw [sweep, sweep, same]

end Behaviour

section Turn

variable {σ : Type} {s : Services σ} {b : Behaviour} {d : Desk}

theorem attempt_tree_eq_settled (follows : s.Follows b) (package : String) (w : Progress σ) :
    (Item.attempt s d package w).1.tree = b.settled d package w.tree :=
  (Item.attempt_congr d package follows b.services_follows rfl).1

theorem takeTurn_eq (follows : s.Follows b) (package : String) (position : Nat) (w : Progress σ) :
    (takeTurn s d package position w).attempted.tree = b.settled d package w.tree ∧
      (takeTurn s d package position w).after.tree =
        (Checkpoint.save (b.settled d package w.tree) d.directory d.checkpoint (position + 1)
          true).tree ∧
      (takeTurn s d package position w).saved =
        (Checkpoint.save (b.settled d package w.tree) d.directory d.checkpoint (position + 1)
          true).result := by
  rw [takeTurn_attempted_tree, takeTurn_after_tree, takeTurn_saved, follows.accepts,
    attempt_tree_eq_settled follows]
  exact ⟨rfl, rfl, rfl⟩

end Turn

/-! ## Ways that are barred -/

namespace RecordStore

variable {store : RecordStore} {t : FileTree} {cwd : Place} {package token : String}
variable {table : SymbolTable} {accepts : Bool}

/-- A file bars the way to the records of a store. -/
def IsBarred (store : RecordStore) (t : FileTree) (cwd : Place) : Prop :=
  t.Barred FileTree.linkLimit (FileTree.pathBase cwd store.folder) store.steps

/-- A record that is written is known afterwards, or bars the way to all records. -/
theorem has_or_isBarred_write
    (done : (store.write t cwd package token table accepts).result = .ok ()) :
    store.has (store.write t cwd package token table accepts).tree cwd package token = true ∨
      store.IsBarred (store.write t cwd package token table accepts).tree cwd := by
  refine (FileTree.read_or_barred_replaceFile done).imp (fun read => ?_) fun shut => ?_
  · obtain ⟨p, located, entry, _⟩ := FileTree.read_eq_ok_iff.mp read
    exact FileTree.isFile_eq_true_iff.mpr ⟨p, _, located, entry⟩
  · rwa [pathSteps_path, List.dropLast_concat, pathBase_path] at shut

/-- Where the way is barred, a record cannot be written, and the attempt changes nothing. -/
theorem write_of_isBarred (shut : store.IsBarred t cwd) :
    ∃ e, store.write t cwd package token table accepts = ⟨t, .error e⟩ := by
  by_cases bare : store.directory = ""
  · rw [IsBarred, steps, if_pos bare] at shut
    cases shut
  · have shut := shut.of_filter_eq store.pathSteps_folder.symm
    rw [folder, if_neg bare] at shut
    obtain ⟨e, failed⟩ := FileTree.makeDirectories_of_barred bare shut
    refine ⟨.during ("create dir " ++ FileTree.folderOf (store.path package token)) e, ?_⟩
    unfold write FileTree.replaceFile
    dsimp only
    rw [parentOf_path, if_neg bare, failed]

end RecordStore

namespace Desk

/-- A file bars the way to the checkpoint. -/
def IsBarred (d : Desk) (t : FileTree) : Prop :=
  t.Barred FileTree.linkLimit (FileTree.pathBase d.directory d.checkpoint)
    (FileTree.pathSteps d.checkpoint).dropLast

variable {d : Desk} {t : FileTree} {position : Nat} {accepts : Bool}

/-- What is saved is told, or bars the way to the checkpoint. -/
theorem told_or_isBarred_save (small : position < Text.counterBound)
    (done : (Checkpoint.save t d.directory d.checkpoint position accepts).result = .ok ()) :
    told d (Checkpoint.save t d.directory d.checkpoint position accepts).tree = position ∨
      d.IsBarred (Checkpoint.save t d.directory d.checkpoint position accepts).tree :=
  (FileTree.read_or_barred_replaceFile done).imp_left fun read =>
    congrArg Prod.fst (Checkpoint.load_of_read small read)

end Desk

section Again

variable {σ : Type} {s : Services σ} {b : Behaviour} {d : Desk} {w : Progress σ}

/-- Where the way to the store is barred, an attempt changes nothing. -/
theorem Behaviour.settled_of_isBarred {t : FileTree} (package : String)
    (shut : d.store.IsBarred t d.directory) : b.settled d package t = t := by
  rw [settled, Item.attempt_tree]
  rcases Item.process_cases b.services d package ⟨t, ("", ""), []⟩ with
    ⟨same, _⟩ | ⟨v, _, _, _, recording⟩
  · exact same
  · generalize Item.process b.services d package ⟨t, ("", ""), []⟩ = result at recording ⊢
    obtain ⟨⟨after, outside, events⟩, reply⟩ := result
    dsimp only at recording ⊢
    cases recording with
    | idle => rfl
    | recorded _ written =>
        obtain ⟨e, failed⟩ := RecordStore.write_of_isBarred shut
        rw [failed] at written
        cases written
    | unwritten =>
        obtain ⟨e, failed⟩ := RecordStore.write_of_isBarred shut
        exact congrArg Attempt.tree failed

/-- When a package has been recorded, another attempt at it changes nothing. -/
theorem Behaviour.settled_settled (follows : s.Follows b) {package record : String} {symbols : Nat}
    (recorded : (Item.attempt s d package w).2 = .recorded record symbols) :
    b.settled d package (b.settled d package w.tree) = b.settled d package w.tree := by
  rw [← attempt_tree_eq_settled follows package w]
  have recorded := (Item.attempt_eq_recorded_iff s d package w).mp recorded
  rw [Item.attempt_tree]
  rcases Item.process_cases s d package w with ⟨_, nothing⟩ | ⟨v, safe, resolved, _, recording⟩
  · exact absurd recorded (nothing record symbols)
  · rw [recorded] at recording
    obtain ⟨table, accepted, _, written, after, _⟩ := recording.of_recorded
    rw [follows.resolve] at resolved
    rw [after]
    rcases RecordStore.has_or_isBarred_write written with known | shut
    · rw [settled, Item.attempt_tree]
      exact (Item.process_of_known (w := ⟨_, ("", ""), []⟩) b.services d package safe resolved
        known).1
    · exact b.settled_of_isBarred package shut

end Again

/-! ## Interruptions -/

/-- What a turn leaves if it is cut off right after one of its effects. The effect of a record is in
the store: what the checkpoint tells is changed by saves only. So it is wherever the store is there
and no symbolic link is in the place of the record (`Turn.leaves_record`). -/
inductive Turn.Leaves {σ : Type} (d : Desk) (turn : Turn σ) : FileTree → Prop
  | record {record : String} {symbols : Nat} (outcome : turn.outcome = .recorded record symbols)
      (apart : told d turn.attempted.tree = told d turn.before.tree) :
      Leaves d turn turn.attempted.tree
  | checkpoint (saved : turn.saved = .ok ()) : Leaves d turn turn.after.tree

/-- A turn leaves its record, if this is a new entry of the store. -/
theorem Turn.leaves_record {σ : Type} {s : Services σ} {d : Desk} {w : Progress σ} {S : Place}
    {package record : String} {position symbols : Nat}
    (found : w.tree.find d.directory d.store.folder = .ok (S, .directory))
    (noLink : ∀ target, w.tree.get? (S ++ [record]) ≠ some (.link target))
    (outcome : (takeTurn s d package position w).outcome = .recorded record symbols) :
    (takeTurn s d package position w).Leaves d
      (takeTurn s d package position w).attempted.tree := by
  have recorded := (Item.attempt_eq_recorded_iff s d package w).mp outcome
  refine .record outcome ?_
  rw [takeTurn_attempted_tree, takeTurn_before, Item.attempt_tree]
  rcases Item.process_cases s d package w with ⟨_, nothing⟩ | ⟨v, _, _, unknown, recording⟩
  · exact absurd recorded (nothing record symbols)
  · rw [recorded] at recording
    obtain ⟨table, accepted, _, written, after, rfl, _⟩ := recording.of_recorded
    rw [after]
    exact told_write_of_noLink found noLink unknown written

/-- A pass that has begun with one tree, and has come to another. Each run has services, limits
and an outside of its own. It is cut off after any of its effects, or it comes back before the end
of the list; then the next run starts. -/
inductive Interrupted (b : Behaviour) (d : Desk) (packages : List String) (t : FileTree) :
    FileTree → Prop
  | begun : Interrupted b d packages t t
  | cut {σ : Type} {s : Services σ} {limits : Limits} {w : Progress σ} {turn : Turn σ}
      {left : FileTree} (onward : Interrupted b d packages t w.tree) (follows : s.Follows b)
      (member : turn ∈ turns s d limits packages w) (effect : turn.Leaves d left) :
      Interrupted b d packages t left
  | back {σ : Type} {s : Services σ} {limits : Limits} {w : Progress σ} {summary : Summary}
      (onward : Interrupted b d packages t w.tree) (follows : s.Follows b)
      (back : (run s d limits packages w).2 = .ok summary)
      (more : summary.passCompleted = false) :
      Interrupted b d packages t (run s d limits packages w).1.tree

section OnTrack

/-- A tree at a position of a pass. -/
inductive OnTrack (b : Behaviour) (d : Desk) (packages : List String) (goal : Attempt) :
    Nat → FileTree → Prop
  /-- The checkpoint tells the position, and the rest of the pass leads to its end. -/
  | leads {position : Nat} {t : FileTree} (here : told d t = position)
      (same : b.sweep d (packages.zipIdx.drop position) t = goal) :
      OnTrack b d packages goal position t
  /-- No pass comes to an end any more. -/
  | barred {position : Nat} {t : FileTree} (shut : d.IsBarred t) :
      OnTrack b d packages goal position t

variable {σ : Type} {s : Services σ} {b : Behaviour} {d : Desk} {packages : List String}
variable {goal : Attempt} {w : Progress σ} {package : String} {limits : Limits} {position : Nat}

theorem zipIdx_drop (there : packages[position]? = some package) :
    packages.zipIdx.drop position = (package, position) :: packages.zipIdx.drop (position + 1) := by
  obtain ⟨inside, entry⟩ := List.getElem?_eq_some_iff.mp there
  rw [List.drop_eq_getElem_cons (by simpa using inside)]
  simp [entry]

namespace OnTrack

/-- The next run starts at the position that the checkpoint tells. -/
theorem again {t : FileTree} (track : OnTrack b d packages goal position t) :
    OnTrack b d packages goal (told d t) t := by
  cases track with
  | leads here same =>
      subst here
      exact .leads rfl same
  | barred shut => exact .barred shut

/-- A record keeps a turn on track. -/
theorem recorded (follows : s.Follows b) (track : OnTrack b d packages goal position w.tree)
    (there : packages[position]? = some package) {record : String} {symbols : Nat}
    (outcome : (takeTurn s d package position w).outcome = .recorded record symbols)
    (apart : told d (takeTurn s d package position w).attempted.tree = told d w.tree) :
    OnTrack b d packages goal position (takeTurn s d package position w).attempted.tree := by
  cases track with
  | barred shut => exact .barred (shut.evolve (takeTurn_evolves s d package position w).1)
  | leads here same =>
      refine .leads (apart.trans here) ?_
      rw [zipIdx_drop there] at same ⊢
      rw [(takeTurn_eq follows package position w).1, ← same]
      exact b.sweep_congr d (b.settled_settled follows outcome)

/-- A checkpoint takes the track to the next position. -/
theorem saved (small : packages.length < Text.counterBound) (follows : s.Follows b)
    (track : OnTrack b d packages goal position w.tree)
    (there : packages[position]? = some package)
    (saved : (takeTurn s d package position w).saved = .ok ()) :
    OnTrack b d packages goal (position + 1) (takeTurn s d package position w).after.tree := by
  obtain ⟨_, after, saves⟩ := takeTurn_eq follows package position w
  have evolution := (takeTurn_evolves s d package position w).2
  rw [after] at evolution ⊢
  rw [saves] at saved
  cases track with
  | barred shut => exact .barred (shut.evolve evolution)
  | leads _ same =>
      have inside := (List.getElem?_eq_some_iff.mp there).1
      rw [zipIdx_drop there, b.sweep_cons_of_ok d saved] at same
      rcases Desk.told_or_isBarred_save (by omega) saved with next | shut
      · exact .leads next same
      · exact .barred shut

/-- A run keeps on track from turn to turn, and after each effect of a turn. -/
theorem turns (small : packages.length < Text.counterBound) (follows : s.Follows b)
    (track : OnTrack b d packages goal (told d w.tree) w.tree) :
    (∀ turn ∈ Batch.turns s d limits packages w, ∀ left, turn.Leaves d left →
      OnTrack b d packages goal (told d left) left) ∧
    ((∀ turn ∈ Batch.turns s d limits packages w, turn.saved = .ok ()) →
      OnTrack b d packages goal
        (nextAfter (startPosition d w).1 (Batch.turns s d limits packages w))
        (treeAfter w.tree (Batch.turns s d limits packages w))) := by
  rw [← startPosition_fst] at track
  obtain ⟨before, after⟩ := turns_invariant s limits packages (OnTrack b d packages goal) track
    fun package position w' there track saved => track.saved small follows there saved
  refine ⟨fun turn member left effect => ?_, after⟩
  have taken := eq_takeTurn_of_mem_turns member
  have there := getElem?_of_mem_turns member
  have track := before turn member
  cases effect with
  | record outcome apart =>
      rw [taken] at outcome apart ⊢
      exact (track.recorded follows there outcome apart).again
  | checkpoint saved =>
      rw [taken] at saved ⊢
      exact (track.saved small follows there saved).again

end OnTrack

/-- However a pass is interrupted, the rest of it leads to the same end. -/
theorem Interrupted.onTrack {t left : FileTree} (h : Interrupted b d packages t left)
    (small : packages.length < Text.counterBound) :
    OnTrack b d packages (b.sweep d (packages.zipIdx.drop (told d t)) t) (told d left) left := by
  induction h with
  | begun => exact .leads rfl rfl
  | cut onward follows member effect ih => exact (ih.turns small follows).1 _ member _ effect
  | back onward follows back more ih =>
      obtain ⟨_, _, _, saved, ending⟩ := run_ok back
      rcases ending with ⟨_, _, _, tree⟩ | ⟨_, completed, _⟩
      · rw [tree]
        exact ((ih.turns small follows).2 saved).again
      · rw [more] at completed
        cases completed

/-- A run that comes to the end of the list leaves the tree that the rest of the pass leads to. -/
theorem OnTrack.of_completed {summary : Summary} (small : packages.length < Text.counterBound)
    (follows : s.Follows b) (track : OnTrack b d packages goal (told d w.tree) w.tree)
    (back : (run s d limits packages w).2 = .ok summary)
    (completed : summary.passCompleted = true) :
    goal.result = .ok () ∧ (run s d limits packages w).1.tree = goal.tree := by
  obtain ⟨_, begun, _, saved, ending⟩ := run_ok back
  have track := (track.turns small follows).2 saved
  rcases ending with ⟨_, more, _⟩ | ⟨through, _, _, o, reset, tree⟩
  · rw [more] at completed
    cases completed
  · rw [begun] at through
    rw [follows.accepts] at reset tree
    generalize nextAfter (startPosition d w).1 (Batch.turns s d limits packages w) = position
      at track through
    cases track with
    | leads _ same =>
        rw [List.drop_of_length_le (by simpa using through)] at same
        rw [← same]
        exact ⟨reset, tree⟩
    | barred shut => exact absurd reset (FileTree.not_replaceFile_of_barred shut)

end OnTrack

/-! ## Runs that are not disturbed -/

section Undisturbed

variable {σ : Type} {s : Services σ} {b : Behaviour} {d : Desk} {packages : List String}
variable {limits : Limits} {w : Progress σ}

/-- A loop that has time enough attempts all its items and leaves what a sweep leaves. -/
theorem Course.sweep_eq {deadline : Nat} {items : List (String × Nat)} {r : Reached}
    {turns : List (Turn σ)} {out : Progress σ × Except RunError Reached}
    (h : Course s d deadline items r w turns out) (follows : s.Follows b)
    (never : ∀ o, (s.now o).1 < deadline)
    (consecutive : items.map Prod.snd = List.range' r.next items.length)
    (ends : (b.sweep d items w.tree).result = .ok ()) :
    ∃ r', out.2 = .ok r' ∧ r'.next = r.next + items.length ∧
      Checkpoint.save out.1.tree d.directory d.checkpoint 0 true = b.sweep d items w.tree := by
  induction h with
  | @through r w => exact ⟨r, rfl, rfl, rfl⟩
  | @late _ _ _ _ w late => exact absurd (never w.outside) (Nat.not_lt.mpr late)
  | @failed package position rest r w e _ failed =>
      rw [(takeTurn_eq follows package position (w.timed s)).2.2, Progress.tree_timed] at failed
      rw [Behaviour.sweep] at ends
      simp [failed] at ends
  | @turn package position rest r w turns out _ saved onward ih =>
      obtain ⟨_, after, saves⟩ := takeTurn_eq follows package position (w.timed s)
      rw [saves, Progress.tree_timed] at saved
      rw [Progress.tree_timed] at after
      obtain ⟨here, later⟩ : position = r.next ∧
          rest.map Prod.snd = List.range' (r.next + 1) rest.length := by
        simpa [List.range'_succ] using consecutive
      rw [b.sweep_cons_of_ok d saved, ← after] at ends ⊢
      obtain ⟨r', done, next, reset⟩ := ih (by simpa [here] using later) ends
      refine ⟨r', done, ?_, reset⟩
      rw [next, List.length_cons]
      dsimp only
      omega

/-- A run that is not disturbed does the rest of the pass. -/
theorem run_undisturbed (follows : s.Follows b) (large : packages.length ≤ limits.batchSize)
    (never : ∀ o, (s.now o).1 < limits.deadline)
    (ends : (b.sweep d (packages.zipIdx.drop (told d w.tree)) w.tree).result = .ok ()) :
    ∃ summary, (run s d limits packages w).2 = .ok summary ∧ summary.passCompleted = true ∧
      (run s d limits packages w).1.tree =
        (b.sweep d (packages.zipIdx.drop (told d w.tree)) w.tree).tree := by
  have positions := window_positions packages (startPosition d w).1 limits.batchSize
  have items := window_eq_drop packages (startPosition d w).1 large
  rw [← startPosition_fst, ← items] at ends ⊢
  rw [← tree_startPosition d w] at ends
  rcases run_cases s d limits packages w with ⟨w', e, loop, _⟩ | ⟨w', r, loop, whole⟩
  · obtain ⟨r, done, _⟩ := loop.sweep_eq follows never positions ends
    cases done
  · obtain ⟨r, done, next, reset⟩ := loop.sweep_eq follows never positions ends
    obtain rfl := Except.ok.inj done
    rw [tree_startPosition] at reset ends
    have through : packages.length ≤ r.next := by
      rw [next, items]
      simp
      omega
    obtain ⟨after, resets, _⟩ := finish_through s d (startPosition d w).1 w' through
    rw [follows.accepts, reset] at after resets
    rw [whole]
    exact ⟨_, resets ends, rfl, after⟩

end Undisturbed

/-- A pass that is interrupted and taken up again, any number of times, until a run comes to the
end of the list, leaves the very tree that one run leaves that nothing disturbs. A run that is cut
off after it has reset the checkpoint leaves what it leaves when it is not cut off. It does not matter
where the store and the checkpoint lie, nor which symbolic links there are, except that only saves
change what the checkpoint tells (`Turn.Leaves`). -/
theorem interruption {σ σ' : Type} {s : Services σ} {s' : Services σ'} {b : Behaviour} {d : Desk}
    {packages : List String} {limits limits' : Limits} {w : Progress σ} {w' : Progress σ'}
    {summary : Summary} (small : packages.length < Text.counterBound)
    (passes : Interrupted b d packages w'.tree w.tree) (follows : s.Follows b)
    (back : (run s d limits packages w).2 = .ok summary) (completed : summary.passCompleted = true)
    (follows' : s'.Follows b) (large : packages.length ≤ limits'.batchSize)
    (never : ∀ o, (s'.now o).1 < limits'.deadline) :
    ∃ summary', (run s' d limits' packages w').2 = .ok summary' ∧
      summary'.passCompleted = true ∧
      (run s' d limits' packages w').1.tree = (run s d limits packages w).1.tree := by
  obtain ⟨ends, tree⟩ := (passes.onTrack small).of_completed small follows back completed
  rw [tree]
  exact run_undisturbed follows' large never ends

/-- What services do that find a class in every package. -/
def classBehaviour (name : String) : Behaviour where
  resolve _ := .answer (some "1")
  fetch _ _ := .answer ["/download/a.whl"]
  unpack _ _ := (.answer (.ok ()), classArea name)

theorem classServices_follows (name : String) :
    (classServices name).Follows (classBehaviour name) where
  resolve _ _ := rfl
  fetch _ _ _ := rfl
  unpack _ _ _ _ _ _ _ := rfl
  accepts _ := rfl

/-- A pass that is cut off when the first of two packages has been recorded, and taken up again. -/
theorem interruption_after_one_item :
    ∃ turn ∈ turns (classServices "X") sampleDesk ⟨2, 1⟩ ["a", "b"] ⟨sampleTree, (), []⟩,
      turn.outcome = .recorded "a_v000100000000.json" 1 ∧
      ∃ summary, (run (classServices "X") sampleDesk ⟨2, 1⟩ ["a", "b"] ⟨sampleTree, (), []⟩).2 =
          .ok summary ∧
        summary.passCompleted = true ∧
        (run (classServices "X") sampleDesk ⟨2, 1⟩ ["a", "b"] ⟨sampleTree, (), []⟩).1.tree =
          (run (classServices "X") sampleDesk ⟨2, 1⟩ ["a", "b"] turn.attempted).1.tree := by
  have word : Source.Vocabulary.isWord "X" = true := by decide
  have unknown : "X" ∉ Source.grammar.literals := by decide +kernel
  have record : recordName "a" (versionToken "1") = "a_v000100000000.json" := by cbv
  have start : told sampleDesk sampleTree = 0 := by cbv
  have accepts : ∀ o, ((classServices "X").accepts o).1 = true := fun _ => rfl
  obtain ⟨turn, rest, taken, package⟩ : ∃ turn rest,
      turns (classServices "X") sampleDesk ⟨2, 1⟩ ["a", "b"] ⟨sampleTree, (), []⟩ =
        turn :: rest ∧ turn.package = "a" := by
    have packages : (turns (classServices "X") sampleDesk ⟨2, 1⟩ ["a", "b"]
        ⟨sampleTree, (), []⟩).map (·.package) = ["a", "b"] :=
      sampleDesk_open.packages_turns accepts start (by decide) fun _ => Nat.one_pos
    obtain ⟨turn, rest, taken, package, _⟩ := List.map_eq_cons_iff.mp packages
    exact ⟨turn, rest, taken, package⟩
  have member : turn ∈ turns (classServices "X") sampleDesk ⟨2, 1⟩ ["a", "b"]
      ⟨sampleTree, (), []⟩ := by simp [taken]
  have chain := turns_chain (classServices "X") sampleDesk ⟨2, 1⟩ ["a", "b"] ⟨sampleTree, (), []⟩
  rw [taken] at chain
  have isOpen : sampleDesk.Open turn.before.tree ["db"] ["at"] := by
    rw [chain.before_eq]
    exact sampleDesk_open
  have outcome : turn.outcome = .recorded "a_v000100000000.json" 1 := by
    rw [isOpen.outcome_class word unknown member (by rw [package]; decide), chain.before_eq,
      has_sampleTree, package, record]
    rfl
  have effect : turn.Leaves sampleDesk turn.attempted.tree := by
    rw [eq_takeTurn_of_mem_turns member] at outcome ⊢
    exact Turn.leaves_record isOpen.store (isOpen.noLinks _) outcome
  have apart : told sampleDesk turn.attempted.tree = 0 := by
    obtain ⟨C, layout⟩ := Desk.Layout.exists_of_noLinks isOpen.noLinks isOpen.store
    rw [eq_takeTurn_of_mem_turns member, takeTurn_attempted_tree, layout.told_attempt,
      chain.before_eq, start]
  have attempted : sampleDesk.Open turn.attempted.tree ["db"] ["at"] := by
    rw [eq_takeTurn_of_mem_turns member]
    exact isOpen.attempt_open
  obtain ⟨summary, back', completed'⟩ : ∃ summary, (run (classServices "X") sampleDesk ⟨2, 1⟩
      ["a", "b"] turn.attempted).2 = .ok summary ∧ summary.passCompleted = true :=
    attempted.run_completes accepts apart (by decide) fun _ => Nat.one_pos
  exact ⟨turn, member, outcome, interruption (by decide)
    (.cut .begun (classServices_follows "X") member effect) (classServices_follows "X") back'
    completed' (classServices_follows "X") (by decide) fun _ => Nat.one_pos⟩

end ApiInventory.Batch

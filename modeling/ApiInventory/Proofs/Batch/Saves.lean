import ApiInventory.Proofs.Batch.Prediction

/-!
# The checkpoints that a run saves

A run saves a checkpoint after each of its items, and one more, back to the start, if it comes to
the end of the list (`saves`). `Ending` says in which four ways that can come out: all are saved,
with or without the last one, or the one that is not saved is the last that was tried. Whether a
run comes back with a summary depends on nothing else (`run_error_iff`).
-/

namespace ApiInventory.Batch

open Files (FileTree Place)

variable {σ : Type}

/-- An attempt to save a checkpoint. -/
structure Save where
  before : FileTree
  position : Nat
  after : FileTree
  result : Except Files.FileError Unit

/-- A save is made at a desk, and the device takes the file or not. -/
def Save.Made (d : Desk) (save : Save) : Prop :=
  ∃ accepted, Checkpoint.save save.before d.directory d.checkpoint save.position accepted =
    ⟨save.after, save.result⟩

namespace Save.Made

variable {d : Desk} {save : Save}

/-- A position that is saved stands in the file that was put where the path led. -/
theorem placed (made : save.Made d) (done : save.result = .ok ()) :
    ∃ p, CheckpointGoesTo d save.before p ∧
      save.after.get? p = some (.file (Checkpoint.content save.position)) := by
  obtain ⟨accepted, attempt⟩ := made
  have result : (Checkpoint.save save.before d.directory d.checkpoint save.position
      accepted).result = .ok () := by rw [attempt, done]
  obtain ⟨p, located, noDirectory, alike⟩ := FileTree.replaceFile_of_ok result
  refine ⟨p, located, ?_⟩
  have after : save.after = (Checkpoint.save save.before d.directory d.checkpoint save.position
      accepted).tree := by rw [attempt]
  rw [after]
  exact (alike.get? p).trans (by simp [FileTree.ne_nil_of_get?_ne_directory noDirectory])

/-- It is read there if the path leads to that file. -/
theorem read (made : save.Made d) (done : save.result = .ok ()) (keeps : d.Keeps save.before) :
    save.after.read d.directory d.checkpoint = .ok (Checkpoint.content save.position) := by
  obtain ⟨accepted, attempt⟩ := made
  have result : (Checkpoint.save save.before d.directory d.checkpoint save.position
      accepted).result = .ok () := by rw [attempt, done]
  have after : save.after = (Checkpoint.save save.before d.directory d.checkpoint save.position
      accepted).tree := by rw [attempt]
  rw [after]
  exact FileTree.read_replaceFile result keeps

end Save.Made

/-- The save at the end of a turn. -/
def Turn.save (turn : Turn σ) : Save :=
  ⟨turn.attempted.tree, turn.position + 1, turn.after.tree, turn.saved⟩

/-- The save that takes the checkpoint back to the start. -/
def resetFrom (s : Services σ) (d : Desk) (w : Progress σ) : Save :=
  ⟨w.tree, 0, (saveCheckpoint s d 0 w).1.tree, (saveCheckpoint s d 0 w).2⟩

theorem made_resetFrom (s : Services σ) (d : Desk) (w : Progress σ) : (resetFrom s d w).Made d :=
  ⟨(s.accepts w.outside).1, rfl⟩

theorem made_takeTurn (s : Services σ) (d : Desk) (package : String) (position : Nat)
    (w : Progress σ) : (takeTurn s d package position w).save.Made d :=
  ⟨(s.accepts (Item.attempt s d package w).1.outside).1, rfl⟩

section Loop

variable {s : Services σ} {d : Desk} {deadline : Nat} {items : List (String × Nat)} {r : Reached}
variable {w : Progress σ} {turns : List (Turn σ)} {out : Progress σ × Except RunError Reached}

/-- A loop ends in an error exactly after a turn whose checkpoint was not saved. -/
theorem Course.of_error (h : Course s d deadline items r w turns out) {e : RunError}
    (failed : out.2 = .error e) :
    ∃ saved turn, turns = saved ++ [turn] ∧ (∀ t ∈ saved, t.saved = .ok ()) ∧
      (∃ error, turn.saved = .error error) ∧ e = .saveFailed (turn.position + 1) ∧
      out.1 = turn.after := by
  induction h with
  | through | late => cases failed
  | @failed package position _ _ w error _ unsaved =>
      cases failed
      exact ⟨[], takeTurn s d package position (w.timed s), rfl, by simp, ⟨error, unsaved⟩, rfl,
        rfl⟩
  | @turn package position _ _ w turns _ _ here _ ih =>
      obtain ⟨saved, turn, split, all, unsaved, named, left⟩ := ih failed
      exact ⟨takeTurn s d package position (w.timed s) :: saved, turn, by rw [split]; rfl,
        List.forall_mem_cons.mpr ⟨here, all⟩, unsaved, named, left⟩

end Loop

section Run

variable (s : Services σ) (d : Desk) (limits : Limits) (packages : List String) (w : Progress σ)

/-- The save at the end of the list, if a run comes to it. -/
def resetSave? : Option Save :=
  match loop s d limits packages w with
  | (w', .ok r) => if packages.length ≤ r.next then some (resetFrom s d w') else none
  | (_, .error _) => none

/-- The saves that a run tries, in their order. -/
def saves : List Save :=
  (turns s d limits packages w).map Turn.save ++ (resetSave? s d limits packages w).toList

/-- What a run says that has come to a position. -/
def summaryOf (total start : Nat) (r : Reached) : Summary :=
  ⟨total, start, if total ≤ r.next then 0 else r.next, r.tally, r.timeLimited,
    decide (total ≤ r.next)⟩

/-- The ways in which a run ends: with the save at the end of the list if there is one, and what
comes of it. -/
inductive Ending : Option Save → Progress σ × Except RunError Summary → Prop
  | inside {w' : Progress σ} {r : Reached} (looped : loop s d limits packages w = (w', .ok r))
      (inside : r.next < packages.length) :
      Ending none (w', .ok (summaryOf packages.length (startPosition d w).1 r))
  | through {w' : Progress σ} {r : Reached} (looped : loop s d limits packages w = (w', .ok r))
      (through : packages.length ≤ r.next) (saved : (resetFrom s d w').result = .ok ()) :
      Ending (some (resetFrom s d w'))
        ((saveCheckpoint s d 0 w').1, .ok (summaryOf packages.length (startPosition d w).1 r))
  | saveFailed {w' : Progress σ} {e : RunError}
      (looped : loop s d limits packages w = (w', .error e)) : Ending none (w', .error e)
  | resetFailed {w' : Progress σ} {r : Reached} {e : Files.FileError}
      (looped : loop s d limits packages w = (w', .ok r))
      (through : packages.length ≤ r.next) (failed : (resetFrom s d w').result = .error e) :
      Ending (some (resetFrom s d w')) ((saveCheckpoint s d 0 w').1, .error .resetFailed)

theorem run_ending :
    Ending s d limits packages w (resetSave? s d limits packages w)
      (run s d limits packages w) := by
  rw [run_eq, resetSave?]
  rcases looped : loop s d limits packages w with ⟨w', e | r⟩
  · exact .saveFailed looped
  · dsimp only
    by_cases through : packages.length ≤ r.next
    · rw [if_pos through, finish, if_pos through]
      rcases reset : saveCheckpoint s d 0 w' with ⟨w'', e | ⟨⟩⟩
      · have ends := Ending.resetFailed looped through (congrArg Prod.snd reset)
        rw [reset] at ends
        exact ends
      · have ends := Ending.through looped through (congrArg Prod.snd reset)
        rw [reset] at ends
        simpa [summaryOf, through] using ends
    · have ends := Ending.inside looped (Nat.lt_of_not_le through)
      rw [if_neg through, finish_inside (Nat.lt_of_not_le through)]
      simpa [summaryOf, through] using ends

variable {s d limits packages w}

/-- The course of a loop whose end is known. -/
theorem course_of_loop {out : Progress σ × Except RunError Reached}
    (looped : loop s d limits packages w = out) :
    Course s d limits.deadline (window packages (startPosition d w).1 limits.batchSize)
      ⟨.zero, (startPosition d w).1, false⟩ (startPosition d w).2 (turns s d limits packages w)
      out :=
  looped ▸ loop_course s d limits packages w

/-- A run that comes back is its loop, and the save at the end of the list if it comes there. -/
theorem loop_of_ok {summary : Summary} (back : (run s d limits packages w).2 = .ok summary) :
    ∃ w' r, loop s d limits packages w = (w', .ok r) ∧
      summary = summaryOf packages.length (startPosition d w).1 r ∧
      ((r.next < packages.length ∧ resetSave? s d limits packages w = none ∧
          (run s d limits packages w).1 = w') ∨
        (packages.length ≤ r.next ∧ resetSave? s d limits packages w = some (resetFrom s d w') ∧
          (run s d limits packages w).1.tree = (resetFrom s d w').after)) := by
  have ending := run_ending s d limits packages w
  generalize resetSave? s d limits packages w = reset at ending ⊢
  generalize run s d limits packages w = out at ending back ⊢
  cases ending with
  | inside looped inside =>
      cases back
      exact ⟨_, _, looped, rfl, .inl ⟨inside, rfl, rfl⟩⟩
  | through looped through saved =>
      cases back
      exact ⟨_, _, looped, rfl, .inr ⟨through, rfl, rfl⟩⟩
  | saveFailed | resetFailed => cases back

/-- A run that fails is its loop, or it comes to the end of the list and fails there. -/
theorem loop_of_error {e : RunError} (failed : (run s d limits packages w).2 = .error e) :
    (loop s d limits packages w = ((run s d limits packages w).1, .error e) ∧
        resetSave? s d limits packages w = none) ∨
      ∃ w' r error, loop s d limits packages w = (w', .ok r) ∧ packages.length ≤ r.next ∧
        resetSave? s d limits packages w = some (resetFrom s d w') ∧
        (resetFrom s d w').result = .error error ∧
        (run s d limits packages w).1.tree = (resetFrom s d w').after ∧ e = .resetFailed := by
  have ending := run_ending s d limits packages w
  generalize resetSave? s d limits packages w = reset at ending ⊢
  generalize run s d limits packages w = out at ending failed ⊢
  cases ending with
  | inside | through => cases failed
  | saveFailed looped =>
      cases failed
      exact .inl ⟨looped, rfl⟩
  | resetFailed looped through unsaved =>
      cases failed
      exact .inr ⟨_, _, _, looped, through, rfl, unsaved, rfl, rfl⟩

theorem made_of_mem_saves : ∀ save ∈ saves s d limits packages w, save.Made d := by
  intro save member
  rcases List.mem_append.mp member with of_turn | of_reset
  · obtain ⟨turn, taken, rfl⟩ := List.mem_map.mp of_turn
    rw [eq_takeTurn_of_mem_turns taken]
    exact made_takeTurn ..
  · have ending := run_ending s d limits packages w
    generalize resetSave? s d limits packages w = reset at ending of_reset
    generalize run s d limits packages w = out at ending
    cases ending with
    | inside | saveFailed => cases of_reset
    | through | resetFailed =>
        obtain rfl := List.mem_singleton.mp of_reset
        exact made_resetFrom ..

theorem position_of_mem_resetSave? {save : Save}
    (reset : save ∈ (resetSave? s d limits packages w).toList) : save.position = 0 := by
  have ending := run_ending s d limits packages w
  generalize resetSave? s d limits packages w = tried at ending reset
  generalize run s d limits packages w = out at ending
  cases ending with
  | inside | saveFailed => cases reset
  | through | resetFailed =>
      obtain rfl := List.mem_singleton.mp reset
      rfl

/-- A run leaves what its turns leave, or what the save at the end of the list makes of that. -/
theorem tree_of_saves :
    (resetSave? s d limits packages w = none ∧
        (run s d limits packages w).1.tree = treeAfter w.tree (turns s d limits packages w)) ∨
      ∃ save, resetSave? s d limits packages w = some save ∧ save.position = 0 ∧ save.Made d ∧
        save.before = treeAfter w.tree (turns s d limits packages w) ∧
        save.after = (run s d limits packages w).1.tree := by
  have tree := (loop_course s d limits packages w).tree_eq
  rw [tree_startPosition] at tree
  rw [← tree]
  have ending := run_ending s d limits packages w
  generalize resetSave? s d limits packages w = reset at ending ⊢
  generalize run s d limits packages w = out at ending ⊢
  cases ending with
  | inside looped | saveFailed looped => exact .inl ⟨rfl, by rw [looped]⟩
  | @through w' _ looped | @resetFailed w' _ _ looped =>
      exact .inr ⟨resetFrom s d w', rfl, rfl, made_resetFrom s d w', by rw [looped]; rfl, rfl⟩

/-- A run comes back with a summary exactly if all saves are made that it tries. -/
theorem run_ok_iff :
    (∃ summary, (run s d limits packages w).2 = .ok summary) ↔
      ∀ save ∈ saves s d limits packages w, save.result = .ok () := by
  have ending := run_ending s d limits packages w
  unfold saves
  generalize resetSave? s d limits packages w = reset at ending ⊢
  generalize run s d limits packages w = out at ending ⊢
  cases ending with
  | inside looped =>
      have saved := ((course_of_loop looped).of_ok rfl).1
      exact iff_of_true ⟨_, rfl⟩ (by simpa [Turn.save] using saved)
  | through looped _ reset =>
      have saved := ((course_of_loop looped).of_ok rfl).1
      refine iff_of_true ⟨_, rfl⟩ (List.forall_mem_append.mpr ⟨?_, by simpa using reset⟩)
      simpa [Turn.save] using saved
  | saveFailed looped =>
      obtain ⟨before, turn, split, _, ⟨error, failed⟩, _⟩ := (course_of_loop looped).of_error rfl
      refine iff_of_false nofun fun saved => ?_
      have last : turn.saved = .ok () := saved turn.save (by simp [split])
      rw [last] at failed
      cases failed
  | resetFailed _ _ failed =>
      refine iff_of_false nofun fun saved => ?_
      rw [saved _ (List.mem_append_right _ (List.mem_singleton.mpr rfl))] at failed
      cases failed

/-- A run fails exactly if one of the saves fails that it tries. -/
theorem run_error_iff :
    (∃ e, (run s d limits packages w).2 = .error e) ↔
      ∃ save ∈ saves s d limits packages w, ∃ e, save.result = .error e := by
  have fails : ∀ {ε α : Type} (result : Except ε α),
      (∃ e, result = .error e) ↔ ¬∃ a, result = .ok a := by
    rintro _ _ (e | a) <;> simp
  rw [fails, run_ok_iff]
  simp only [fails, not_forall, exists_prop, Unique.exists_iff]

end Run

end ApiInventory.Batch

import ApiInventory.Batch.Run
import Mathlib.Data.List.Basic

/-!
# A run and its turns

`turns` lists what a run does, item by item. This module says that the list tells the truth: the
tree that a run leaves, its tally and the position it reaches are those of its turns, and the
turns are at consecutive positions of the list.

`Course` has one rule for each way in which the loop of a run goes on or ends. Proofs about runs
are inductions over it. `Course.invariant` is the one that most of them need.
-/

namespace ApiInventory.Batch

open Files (FileTree)

variable {σ : Type}

/-! ## Outcomes -/

def Outcome.isRecorded : Outcome → Bool
  | .recorded _ _ => true
  | .known _ => false
  | .skipped _ => false

def Outcome.isKnown : Outcome → Bool
  | .known _ => true
  | .recorded _ _ => false
  | .skipped _ => false

def Outcome.isSkipped : Outcome → Bool
  | .skipped _ => true
  | .recorded _ _ => false
  | .known _ => false

/-- A tally has counted the outcomes of each kind. -/
theorem Tally.foldl_count (outcomes : List Outcome) (t : Tally) :
    outcomes.foldl count t =
      ⟨t.recorded + outcomes.countP Outcome.isRecorded, t.known + outcomes.countP Outcome.isKnown,
        t.skipped + outcomes.countP Outcome.isSkipped⟩ := by
  induction outcomes generalizing t with
  | nil => rfl
  | cons outcome rest ih =>
      rw [List.foldl_cons, ih]
      cases outcome <;>
        simp [count, List.countP_cons, Outcome.isRecorded, Outcome.isKnown, Outcome.isSkipped] <;>
        omega

theorem Tally.recorded_foldl (outcomes : List Outcome) (t : Tally) :
    (outcomes.foldl count t).recorded = t.recorded + outcomes.countP Outcome.isRecorded := by
  rw [foldl_count]

/-! ## Turns -/

section TakeTurn

variable (s : Services σ) (d : Desk) (package : String) (position : Nat) (w : Progress σ)

@[simp] theorem takeTurn_package : (takeTurn s d package position w).package = package := rfl

@[simp] theorem takeTurn_position : (takeTurn s d package position w).position = position := rfl

@[simp] theorem takeTurn_before : (takeTurn s d package position w).before = w := rfl

@[simp] theorem takeTurn_outcome :
    (takeTurn s d package position w).outcome = (Item.attempt s d package w).2 := rfl

@[simp] theorem takeTurn_attempted_tree :
    (takeTurn s d package position w).attempted.tree = (Item.attempt s d package w).1.tree := rfl

theorem takeTurn_after_tree :
    (takeTurn s d package position w).after.tree =
      (Checkpoint.save (Item.attempt s d package w).1.tree d.directory d.checkpoint (position + 1)
        (s.accepts (Item.attempt s d package w).1.outside).1).tree := rfl

theorem takeTurn_saved :
    (takeTurn s d package position w).saved =
      (Checkpoint.save (Item.attempt s d package w).1.tree d.directory d.checkpoint (position + 1)
        (s.accepts (Item.attempt s d package w).1.outside).1).result := rfl

end TakeTurn

/-- How things stand when a turn starts, the clock having been read. -/
def Progress.timed (s : Services σ) (w : Progress σ) : Progress σ :=
  { w with outside := (s.now w.outside).2 }

@[simp] theorem Progress.tree_timed (s : Services σ) (w : Progress σ) :
    (w.timed s).tree = w.tree := rfl

/-- The loop of a run with its turns and its end. -/
inductive Course (s : Services σ) (d : Desk) (deadline : Nat) : List (String × Nat) → Reached →
    Progress σ → List (Turn σ) → Progress σ × Except RunError Reached → Prop
  | through {r : Reached} {w : Progress σ} : Course s d deadline [] r w [] (w, .ok r)
  | late {package : String} {position : Nat} {rest : List (String × Nat)} {r : Reached}
      {w : Progress σ} (late : deadline ≤ (s.now w.outside).1) :
      Course s d deadline ((package, position) :: rest) r w []
        ((w.timed s).note (.outOfTime package position), .ok { r with timeLimited := true })
  | failed {package : String} {position : Nat} {rest : List (String × Nat)} {r : Reached}
      {w : Progress σ} {e : Files.FileError} (early : (s.now w.outside).1 < deadline)
      (failed : (takeTurn s d package position (w.timed s)).saved = .error e) :
      Course s d deadline ((package, position) :: rest) r w
        [takeTurn s d package position (w.timed s)]
        ((takeTurn s d package position (w.timed s)).after, .error (.saveFailed (position + 1)))
  | turn {package : String} {position : Nat} {rest : List (String × Nat)} {r : Reached}
      {w : Progress σ} {turns : List (Turn σ)} {out : Progress σ × Except RunError Reached}
      (early : (s.now w.outside).1 < deadline)
      (saved : (takeTurn s d package position (w.timed s)).saved = .ok ())
      (onward : Course s d deadline rest
        { r with
          tally := r.tally.count (takeTurn s d package position (w.timed s)).outcome
          next := position + 1 }
        (takeTurn s d package position (w.timed s)).after turns out) :
      Course s d deadline ((package, position) :: rest) r w
        (takeTurn s d package position (w.timed s) :: turns) out

section Course

variable {s : Services σ} {d : Desk} {deadline : Nat}
variable {items : List (String × Nat)} {r : Reached} {w : Progress σ}

theorem course (s : Services σ) (d : Desk) (deadline : Nat) (items : List (String × Nat))
    (r : Reached) (w : Progress σ) :
    Course s d deadline items r w (turnsOf s d deadline items w)
      (attemptAll s d deadline items r w) := by
  induction items generalizing r w with
  | nil => exact .through
  | cons item rest ih =>
      obtain ⟨package, position⟩ := item
      by_cases late : deadline ≤ (s.now w.outside).1
      · have ends : Course s d deadline ((package, position) :: rest) r w [] _ := .late late
        simp only [Progress.timed] at ends
        simpa [turnsOf, attemptAll, late] using ends
      · have early := Nat.lt_of_not_le late
        cases saved : (takeTurn s d package position (w.timed s)).saved with
        | error e =>
            have ends : Course s d deadline ((package, position) :: rest) r w _ _ :=
              .failed early saved
            simp only [Progress.timed] at saved ends ⊢
            simpa [turnsOf, attemptAll, late, saved] using ends
        | ok =>
            have goes : Course s d deadline ((package, position) :: rest) r w _ _ :=
              .turn early saved (ih _ _)
            simp only [Progress.timed] at saved goes ⊢
            simpa [turnsOf, attemptAll, late, saved] using goes

/-- The tree after the last of some turns. -/
def treeAfter (start : FileTree) (turns : List (Turn σ)) : FileTree :=
  (turns.getLast?.map (·.after.tree)).getD start

/-- The position to go on from after the last of some turns. -/
def nextAfter (start : Nat) (turns : List (Turn σ)) : Nat :=
  (turns.getLast?.map (·.position + 1)).getD start

@[simp] theorem treeAfter_cons (start : FileTree) (turn : Turn σ) (rest : List (Turn σ)) :
    treeAfter start (turn :: rest) = treeAfter turn.after.tree rest := by
  cases rest <;> simp [treeAfter, List.getLast?_cons]

theorem treeAfter_append (start : FileTree) (turns rest : List (Turn σ)) :
    treeAfter start (turns ++ rest) = treeAfter (treeAfter start turns) rest := by
  induction turns generalizing start with
  | nil => rfl
  | cons turn turns ih => rw [List.cons_append, treeAfter_cons, treeAfter_cons, ih]

@[simp] theorem nextAfter_cons (start : Nat) (turn : Turn σ) (rest : List (Turn σ)) :
    nextAfter start (turn :: rest) = nextAfter (turn.position + 1) rest := by
  cases rest <;> simp [nextAfter, List.getLast?_cons]

/-- Turns each of which starts from the tree that the one before it has left. -/
inductive Chain : FileTree → List (Turn σ) → Prop
  | nil {t : FileTree} : Chain t []
  | cons {turn : Turn σ} {rest : List (Turn σ)} (onward : Chain turn.after.tree rest) :
      Chain turn.before.tree (turn :: rest)

namespace Chain

variable {t : FileTree} {turns rest : List (Turn σ)}

/-- What every turn keeps holds before each of them, and at the end. -/
theorem invariant (h : Chain t turns) (holds : FileTree → Prop) (first : holds t)
    (step : ∀ turn ∈ turns, holds turn.before.tree → holds turn.after.tree) :
    (∀ turn ∈ turns, holds turn.before.tree) ∧ holds (treeAfter t turns) := by
  induction h with
  | nil => exact ⟨by simp, first⟩
  | @cons turn rest _ ih =>
      have next := step turn List.mem_cons_self first
      obtain ⟨before, after⟩ := ih next fun x member => step x (List.mem_cons_of_mem _ member)
      rw [treeAfter_cons]
      exact ⟨List.forall_mem_cons.mpr ⟨first, before⟩, after⟩

/-- Turns can be cut in two. -/
theorem of_append (h : Chain t (turns ++ rest)) :
    Chain t turns ∧ Chain (treeAfter t turns) rest := by
  induction turns generalizing t with
  | nil => exact ⟨.nil, h⟩
  | cons turn turns ih =>
      cases h with
      | cons onward =>
          obtain ⟨first, second⟩ := ih onward
          rw [treeAfter_cons]
          exact ⟨.cons first, second⟩

theorem before_eq {turn : Turn σ} (h : Chain t (turn :: rest)) : turn.before.tree = t := by
  cases h
  rfl

theorem onward {turn : Turn σ} (h : Chain t (turn :: rest)) : Chain turn.after.tree rest := by
  cases h
  assumption

end Chain

namespace Course

variable {turns : List (Turn σ)} {out : Progress σ × Except RunError Reached}

theorem mem_eq (h : Course s d deadline items r w turns out) :
    ∀ turn ∈ turns, turn = takeTurn s d turn.package turn.position turn.before := by
  induction h with
  | through | late => simp
  | failed => simp
  | turn _ _ _ ih =>
      intro x member
      rcases List.mem_cons.mp member with rfl | member
      · rfl
      · exact ih x member

/-- The turns take the items in order. -/
theorem isPrefix (h : Course s d deadline items r w turns out) :
    turns.map (fun turn => (turn.package, turn.position)) <+: items := by
  induction h with
  | through | late => exact List.nil_prefix
  | failed => simp
  | turn _ _ _ ih => simpa using ih

theorem tree_eq (h : Course s d deadline items r w turns out) :
    out.1.tree = treeAfter w.tree turns := by
  induction h with
  | through | late | failed => rfl
  | turn _ _ _ ih => simpa using ih

theorem of_ok (h : Course s d deadline items r w turns out) {r' : Reached}
    (done : out.2 = .ok r') :
    (∀ turn ∈ turns, turn.saved = .ok ()) ∧ r'.next = nextAfter r.next turns ∧
      r'.tally.attempted = r.tally.attempted + turns.length := by
  induction h with
  | through | late =>
      cases done
      exact ⟨by simp, rfl, rfl⟩
  | failed => cases done
  | turn _ saved _ ih =>
      obtain ⟨all, next, tally⟩ := ih done
      refine ⟨?_, by simpa using next, ?_⟩
      · intro x member
        rcases List.mem_cons.mp member with rfl | member
        · exact saved
        · exact all x member
      · rw [tally]
        simp
        omega

/-- What every turn whose checkpoint is saved carries on to the next position holds before each
turn, and at the end if all checkpoints are saved. -/
theorem invariant (h : Course s d deadline items r w turns out) (holds : Nat → FileTree → Prop)
    (consecutive : items.map Prod.snd = List.range' r.next items.length)
    (first : holds r.next w.tree)
    (step : ∀ package position (w : Progress σ), (package, position) ∈ items →
      holds position w.tree → (takeTurn s d package position w).saved = .ok () →
      holds (position + 1) (takeTurn s d package position w).after.tree) :
    (∀ turn ∈ turns, holds turn.position turn.before.tree) ∧
      ((∀ turn ∈ turns, turn.saved = .ok ()) →
        holds (nextAfter r.next turns) (treeAfter w.tree turns)) := by
  induction h with
  | through | late => exact ⟨by simp, fun _ => first⟩
  | @failed package position rest r w e early failed =>
      obtain ⟨here, _⟩ : position = r.next ∧
          rest.map Prod.snd = List.range' (r.next + 1) rest.length := by
        simpa [List.range'_succ] using consecutive
      refine ⟨fun x member => ?_, fun saved => ?_⟩
      · obtain rfl := List.mem_singleton.mp member
        simpa [here] using first
      · rw [saved _ (List.mem_singleton.mpr rfl)] at failed
        cases failed
  | @turn package position rest r w turns out early saved onward ih =>
      obtain ⟨here, later⟩ : position = r.next ∧
          rest.map Prod.snd = List.range' (r.next + 1) rest.length := by
        simpa [List.range'_succ] using consecutive
      have first : holds position w.tree := by rwa [here]
      have next := step package position (w.timed s) (by simp) first saved
      obtain ⟨before, after⟩ := ih (by simpa [here] using later) next
        fun package position w member => step package position w (List.mem_cons_of_mem _ member)
      refine ⟨fun x member => ?_, fun all => ?_⟩
      · rcases List.mem_cons.mp member with rfl | member
        · exact first
        · exact before x member
      · rw [nextAfter_cons, treeAfter_cons]
        exact after fun x member => all x (List.mem_cons_of_mem _ member)

/-- The tally of a run counts the outcomes of its turns. -/
theorem tally_eq (h : Course s d deadline items r w turns out) {r' : Reached}
    (done : out.2 = .ok r') :
    r'.tally = (turns.map (·.outcome)).foldl Tally.count r.tally := by
  induction h with
  | through | late =>
      cases done
      rfl
  | failed => cases done
  | turn _ _ _ ih =>
      rw [ih done]
      rfl

theorem chain (h : Course s d deadline items r w turns out) : Chain w.tree turns := by
  induction h with
  | through | late => exact .nil
  | @failed package position _ _ w =>
      show Chain (takeTurn s d package position (w.timed s)).before.tree [_]
      exact .cons .nil
  | @turn package position _ _ w turns _ _ _ _ ih =>
      show Chain (takeTurn s d package position (w.timed s)).before.tree (_ :: turns)
      exact .cons ih

/-- If there is time and every checkpoint can be saved, then all items are taken. -/
theorem completes (h : Course s d deadline items r w turns out)
    (holds : FileTree → Prop) (early : ∀ o, (s.now o).1 < deadline) (first : holds w.tree)
    (step : ∀ package position (w : Progress σ), holds w.tree →
      (takeTurn s d package position w).saved = .ok () ∧
        holds (takeTurn s d package position w).after.tree) :
    holds out.1.tree ∧ turns.length = items.length ∧ ∃ r', out.2 = .ok r' := by
  induction h with
  | through => exact ⟨first, rfl, _, rfl⟩
  | late late => exact absurd (early _) (Nat.not_lt.mpr late)
  | @failed package position _ _ w e _ failed =>
      rw [(step package position (w.timed s) first).1] at failed
      cases failed
  | @turn package position _ _ w _ _ _ _ _ ih =>
      obtain ⟨after, taken, done⟩ := ih (step package position (w.timed s) first).2
      exact ⟨after, by simp [taken], done⟩

end Course

end Course

/-! ## The packages of a run -/

section Window

variable (packages : List String) (start batchSize : Nat)

theorem length_window :
    (window packages start batchSize).length =
      windowEnd packages.length start batchSize - start := by
  simp [window, windowEnd]

theorem window_positions :
    (window packages start batchSize).map Prod.snd =
      List.range' start (window packages start batchSize).length := by
  have inside : windowEnd packages.length start batchSize ≤ packages.length := Nat.min_le_right ..
  rw [length_window, window, List.map_drop, List.map_take, List.zipIdx_map_snd,
    List.take_range'_of_length_ge inside, List.drop_range']
  simp

/-- A batch that holds the whole list holds all that is left of it. -/
theorem window_eq_drop {batchSize : Nat} (large : packages.length ≤ batchSize) :
    window packages start batchSize = packages.zipIdx.drop start := by
  have whole : windowEnd packages.length start batchSize = packages.length := by
    unfold windowEnd
    omega
  rw [window, whole, List.take_of_length_le (by simp)]

variable {packages start batchSize}

/-- A run attempts the packages that the list has at its positions. -/
theorem getElem?_of_mem_window {package : String} {position : Nat}
    (h : (package, position) ∈ window packages start batchSize) :
    packages[position]? = some package := by
  have member := List.mem_of_mem_take (List.mem_of_mem_drop h)
  simpa [List.mem_zipIdx_iff_getElem?] using member

end Window

/-! ## Whole runs -/

section Run

variable {s : Services σ} {d : Desk} {limits : Limits} {packages : List String} {w : Progress σ}

/-- The position that the checkpoint tells the next run to start at. -/
def told (d : Desk) (t : FileTree) : Nat := (Checkpoint.load t d.directory d.checkpoint).1

/-- The place that a checkpoint goes to when it is saved. -/
def CheckpointGoesTo (d : Desk) (t : FileTree) (q : Files.Place) : Prop :=
  (t.makeDirectories d.directory (FileTree.parentOf d.checkpoint)).tree.locate d.directory
    d.checkpoint false = .ok q

theorem startPosition_fst (d : Desk) (w : Progress σ) :
    (startPosition d w).1 = told d w.tree := by
  unfold startPosition told
  split <;> simp_all

@[simp] theorem tree_startPosition (d : Desk) (w : Progress σ) :
    (startPosition d w).2.tree = w.tree := by
  unfold startPosition
  split <;> rfl

/-- The loop of a run. -/
theorem run_course (s : Services σ) (d : Desk) (limits : Limits) (packages : List String)
    (w : Progress σ) :
    Course s d limits.deadline
      (window packages (startPosition d w).1 limits.batchSize)
      ⟨.zero, (startPosition d w).1, false⟩ (startPosition d w).2 (turns s d limits packages w)
      (attemptAll s d limits.deadline (window packages (startPosition d w).1 limits.batchSize)
        ⟨.zero, (startPosition d w).1, false⟩ (startPosition d w).2) :=
  course _ _ _ _ _ _

theorem getElem?_of_mem_turns {turn : Turn σ} (h : turn ∈ turns s d limits packages w) :
    packages[turn.position]? = some turn.package := by
  refine getElem?_of_mem_window ((run_course s d limits packages w).isPrefix.subset ?_)
  exact List.mem_map.mpr ⟨turn, h, rfl⟩

/-- The turns of a run are at consecutive positions, from the checkpoint on. -/
theorem turns_positions (s : Services σ) (d : Desk) (limits : Limits) (packages : List String)
    (w : Progress σ) :
    (turns s d limits packages w).map (·.position) =
      List.range' (startPosition d w).1 (turns s d limits packages w).length := by
  have fits := (run_course s d limits packages w).isPrefix.map Prod.snd
  rw [window_positions, List.map_map] at fits
  have shorter := fits.length_le
  have taken := List.prefix_iff_eq_take.mp fits
  rw [List.length_map, List.length_range'] at shorter
  rw [List.length_map, List.take_range'_of_length_ge shorter] at taken
  exact taken

theorem nextAfter_turns (s : Services σ) (d : Desk) (limits : Limits) (packages : List String)
    (w : Progress σ) :
    nextAfter (startPosition d w).1 (turns s d limits packages w) =
      (startPosition d w).1 + (turns s d limits packages w).length := by
  have positions := congrArg List.getLast? (turns_positions s d limits packages w)
  rw [List.getLast?_map, List.getLast?_range'] at positions
  unfold nextAfter
  cases e : (turns s d limits packages w).getLast? with
  | none => simp [List.getLast?_eq_none_iff.mp e]
  | some turn =>
      have some : turns s d limits packages w ≠ [] := by
        intro none
        simp [none] at e
      rw [e, if_neg (by simpa using some)] at positions
      have last : turn.position = _ := Option.some.inj positions
      have := List.length_pos_iff.mpr some
      simp [last]
      omega

/-- A run that attempts anything ends inside the list. -/
theorem turns_inside (some : turns s d limits packages w ≠ []) :
    (startPosition d w).1 + (turns s d limits packages w).length ≤ packages.length := by
  have fits := (run_course s d limits packages w).isPrefix.length_le
  rw [List.length_map, length_window, windowEnd] at fits
  have := List.length_pos_iff.mpr some
  omega

/-- The rule for proofs about the turns of a run. -/
theorem turns_invariant (s : Services σ) (limits : Limits) (packages : List String)
    (holds : Nat → FileTree → Prop) (first : holds (startPosition d w).1 w.tree)
    (step : ∀ package position (w : Progress σ), packages[position]? = some package →
      holds position w.tree → (takeTurn s d package position w).saved = .ok () →
      holds (position + 1) (takeTurn s d package position w).after.tree) :
    (∀ turn ∈ turns s d limits packages w, holds turn.position turn.before.tree) ∧
      ((∀ turn ∈ turns s d limits packages w, turn.saved = .ok ()) →
        holds (nextAfter (startPosition d w).1 (turns s d limits packages w))
          (treeAfter w.tree (turns s d limits packages w))) := by
  have rule := (run_course s d limits packages w).invariant holds (window_positions _ _ _)
    (by simpa using first) fun package position w member =>
      step package position w (getElem?_of_mem_window member)
  simpa using rule

/-- A run is its loop, and its end if every checkpoint could be saved. -/
theorem run_cases (s : Services σ) (d : Desk) (limits : Limits) (packages : List String)
    (w : Progress σ) :
    (∃ w' e, Course s d limits.deadline (window packages (startPosition d w).1 limits.batchSize)
        ⟨.zero, (startPosition d w).1, false⟩ (startPosition d w).2 (turns s d limits packages w)
        (w', .error e) ∧ run s d limits packages w = (w', .error e)) ∨
      ∃ w' r, Course s d limits.deadline (window packages (startPosition d w).1 limits.batchSize)
        ⟨.zero, (startPosition d w).1, false⟩ (startPosition d w).2 (turns s d limits packages w)
        (w', .ok r) ∧
        run s d limits packages w = finish s d packages.length (startPosition d w).1 r w' := by
  have loop := run_course s d limits packages w
  rcases out : attemptAll s d limits.deadline
    (window packages (startPosition d w).1 limits.batchSize)
    ⟨.zero, (startPosition d w).1, false⟩ (startPosition d w).2 with ⟨w', e | r⟩
  · rw [out] at loop
    exact .inl ⟨w', e, loop, by simp only [run, out]⟩
  · rw [out] at loop
    exact .inr ⟨w', r, loop, by simp only [run, out]⟩

section Finish

variable {total start : Nat} {r : Reached}

/-- A run that ends inside the list leaves the checkpoint where it is. -/
theorem finish_inside (inside : r.next < total) :
    finish s d total start r w =
      (w, .ok ⟨total, start, r.next, r.tally, r.timeLimited, false⟩) := by
  rw [finish, if_neg (Nat.not_le.mpr inside)]

/-- A run that comes to the end of the list resets the checkpoint, and fails if it cannot. -/
theorem finish_through (s : Services σ) (d : Desk) (start : Nat) (w : Progress σ)
    (through : total ≤ r.next) :
    (finish s d total start r w).1.tree =
        (Checkpoint.save w.tree d.directory d.checkpoint 0 (s.accepts w.outside).1).tree ∧
      ((Checkpoint.save w.tree d.directory d.checkpoint 0 (s.accepts w.outside).1).result =
          .ok () →
        (finish s d total start r w).2 =
          .ok ⟨total, start, 0, r.tally, r.timeLimited, true⟩) ∧
      ((Checkpoint.save w.tree d.directory d.checkpoint 0 (s.accepts w.outside).1).result ≠
          .ok () →
        (finish s d total start r w).2 = .error .resetFailed) := by
  have tree : (saveCheckpoint s d 0 w).1.tree =
    (Checkpoint.save w.tree d.directory d.checkpoint 0 (s.accepts w.outside).1).tree := rfl
  have result : (saveCheckpoint s d 0 w).2 =
    (Checkpoint.save w.tree d.directory d.checkpoint 0 (s.accepts w.outside).1).result := rfl
  rw [← tree, ← result, finish, if_pos through]
  rcases saveCheckpoint s d 0 w with ⟨w', e | ⟨⟩⟩
  · exact ⟨rfl, nofun, fun _ => rfl⟩
  · exact ⟨rfl, fun _ => rfl, fun failed => absurd rfl failed⟩

end Finish

/-- How a run goes that comes back with a summary. -/
theorem run_ok {summary : Summary} (h : (run s d limits packages w).2 = .ok summary) :
    summary.total = packages.length ∧
    summary.start = (startPosition d w).1 ∧
    summary.tally.attempted = (turns s d limits packages w).length ∧
    (∀ turn ∈ turns s d limits packages w, turn.saved = .ok ()) ∧
    ((nextAfter summary.start (turns s d limits packages w) < packages.length ∧
        summary.passCompleted = false ∧
        summary.nextCheckpoint = nextAfter summary.start (turns s d limits packages w) ∧
        (run s d limits packages w).1.tree =
          treeAfter w.tree (turns s d limits packages w)) ∨
      (packages.length ≤ nextAfter summary.start (turns s d limits packages w) ∧
        summary.passCompleted = true ∧ summary.nextCheckpoint = 0 ∧
        ∃ o, (Checkpoint.save (treeAfter w.tree (turns s d limits packages w)) d.directory
            d.checkpoint 0 (s.accepts o).1).result = .ok () ∧
          (run s d limits packages w).1.tree =
            (Checkpoint.save (treeAfter w.tree (turns s d limits packages w)) d.directory
              d.checkpoint 0 (s.accepts o).1).tree)) := by
  rcases run_cases s d limits packages w with ⟨w', e, _, whole⟩ | ⟨w', r, loop, whole⟩
  · rw [whole] at h
    cases h
  · obtain ⟨saved, next, attempted⟩ := loop.of_ok rfl
    have tree := loop.tree_eq
    simp only [Tally.attempted_zero, Nat.zero_add, tree_startPosition] at next attempted tree
    rw [whole] at h ⊢
    by_cases inside : r.next < packages.length
    · rw [finish_inside inside] at h ⊢
      obtain rfl := Except.ok.inj h
      exact ⟨rfl, rfl, attempted, saved, .inl ⟨by rwa [← next], rfl, next, tree⟩⟩
    · have through := Nat.le_of_not_lt inside
      obtain ⟨after, resets, fails⟩ := finish_through s d (startPosition d w).1 w' through
      by_cases reset : (Checkpoint.save w'.tree d.directory d.checkpoint 0
          (s.accepts w'.outside).1).result = .ok ()
      · rw [resets reset] at h
        obtain rfl := Except.ok.inj h
        rw [← tree]
        exact ⟨rfl, rfl, attempted, saved, .inr ⟨by rwa [← next], rfl, rfl, w'.outside, reset,
          after⟩⟩
      · rw [fails reset] at h
        cases h

theorem eq_takeTurn_of_mem_turns {turn : Turn σ} (h : turn ∈ turns s d limits packages w) :
    turn = takeTurn s d turn.package turn.position turn.before :=
  (run_course s d limits packages w).mem_eq turn h

/-- Each turn of a run starts where the one before it has ended. -/
theorem turns_chain (s : Services σ) (d : Desk) (limits : Limits) (packages : List String)
    (w : Progress σ) : Chain w.tree (turns s d limits packages w) := by
  rw [← tree_startPosition d w]
  exact (run_course s d limits packages w).chain

/-- However a run ends, all that happens after its turns is that the checkpoint goes back. -/
theorem run_tree (s : Services σ) (d : Desk) (limits : Limits) (packages : List String)
    (w : Progress σ) :
    (run s d limits packages w).1.tree = treeAfter w.tree (turns s d limits packages w) ∨
      ∃ accepted, (run s d limits packages w).1.tree =
        (Checkpoint.save (treeAfter w.tree (turns s d limits packages w)) d.directory
          d.checkpoint 0 accepted).tree := by
  rcases run_cases s d limits packages w with ⟨w', e, loop, whole⟩ | ⟨w', r, loop, whole⟩
  · have tree := loop.tree_eq
    rw [tree_startPosition] at tree
    exact .inl (by rw [whole, tree])
  · have tree := loop.tree_eq
    rw [tree_startPosition] at tree
    rw [whole, ← tree]
    by_cases inside : r.next < packages.length
    · exact .inl (by rw [finish_inside inside])
    · exact .inr ⟨_, (finish_through s d _ w' (Nat.le_of_not_lt inside)).1⟩

/-- The summary of a run counts the outcomes of its turns. -/
theorem run_tally {summary : Summary} (h : (run s d limits packages w).2 = .ok summary) :
    summary.tally =
      ((turns s d limits packages w).map (·.outcome)).foldl Tally.count .zero := by
  rcases run_cases s d limits packages w with ⟨w', e, _, whole⟩ | ⟨w', r, loop, whole⟩
  · rw [whole] at h
    cases h
  · have tally : r.tally = _ := loop.tally_eq rfl
    rw [← tally]
    rw [whole] at h
    by_cases inside : r.next < packages.length
    · rw [finish_inside inside] at h
      obtain rfl := Except.ok.inj h
      rfl
    · obtain ⟨_, resets, fails⟩ :=
        finish_through s d (startPosition d w).1 w' (Nat.le_of_not_lt inside)
      by_cases reset : (Checkpoint.save w'.tree d.directory d.checkpoint 0
          (s.accepts w'.outside).1).result = .ok ()
      · rw [resets reset] at h
        obtain rfl := Except.ok.inj h
        rfl
      · rw [fails reset] at h
        cases h

/-- A run that starts at the start of the list and comes to its end takes all of it. -/
theorem turns_of_completed {summary : Summary} (start : told d w.tree = 0)
    (h : (run s d limits packages w).2 = .ok summary) (completed : summary.passCompleted = true) :
    (turns s d limits packages w).map (fun turn => (turn.package, turn.position)) =
      packages.zipIdx := by
  obtain ⟨_, first, _, _, ends⟩ := run_ok h
  rw [startPosition_fst, start] at first
  have fits := (run_course s d limits packages w).isPrefix
  rw [startPosition_fst, start, window, List.drop_zero] at fits
  have all : packages.length ≤ (turns s d limits packages w).length := by
    rcases ends with ⟨_, open', _⟩ | ⟨through, _⟩
    · rw [open'] at completed
      cases completed
    · have next := nextAfter_turns s d limits packages w
      rw [startPosition_fst, start] at next
      rw [first, next] at through
      omega
  refine (fits.trans (List.take_prefix _ _)).eq_of_length_le ?_
  rw [List.length_zipIdx, List.length_map]
  exact all

theorem packages_of_completed {summary : Summary} (start : told d w.tree = 0)
    (h : (run s d limits packages w).2 = .ok summary) (completed : summary.passCompleted = true) :
    (turns s d limits packages w).map (·.package) = packages := by
  have all := congrArg (List.map Prod.fst) (turns_of_completed start h completed)
  rw [List.map_map, List.zipIdx_map_fst] at all
  exact all

/-- A run from the start of a list completes it if its batch holds the list, its deadline does
not come and every checkpoint can be saved. -/
theorem run_completes (holds : FileTree → Prop) (start : told d w.tree = 0)
    (large : packages.length ≤ limits.batchSize) (early : ∀ o, (s.now o).1 < limits.deadline)
    (first : holds w.tree)
    (step : ∀ package position (w : Progress σ), holds w.tree →
      (takeTurn s d package position w).saved = .ok () ∧
        holds (takeTurn s d package position w).after.tree)
    (reset : ∀ t o, holds t → (Checkpoint.save t d.directory d.checkpoint 0
      (s.accepts o).1).result = .ok ()) :
    ∃ summary, (run s d limits packages w).2 = .ok summary ∧
      summary.passCompleted = true := by
  have first : holds (startPosition d w).2.tree := by rwa [tree_startPosition]
  rcases run_cases s d limits packages w with ⟨w', e, loop, _⟩ | ⟨w', r, loop, whole⟩
  · obtain ⟨_, _, _, done⟩ := loop.completes holds early first step
    cases done
  · obtain ⟨after, taken, _⟩ := loop.completes holds early first step
    obtain ⟨_, next, _⟩ := loop.of_ok rfl
    rw [startPosition_fst, start, window_eq_drop _ _ large] at taken
    have through : packages.length ≤ r.next := by
      have position := nextAfter_turns s d limits packages w
      rw [next, position, taken]
      simp
    obtain ⟨_, resets, _⟩ := finish_through s d (startPosition d w).1 w' through
    rw [whole, resets (reset _ _ after)]
    exact ⟨_, rfl, rfl⟩

end Run

/-! ## A desk and services to try things with -/

/-- A desk in the root directory. -/
def sampleDesk : Desk := ⟨[], ⟨"db"⟩, "at", "/"⟩

/-- A tree with an empty store. -/
def sampleTree : FileTree := ⟨[(["db"], .directory)], []⟩

/-- Services that know no package. -/
def noServices : Services Unit where
  now o := (0, o)
  resolve _ o := (.answer none, o)
  fetch _ _ area o := (.answer [], area, o)
  unpack _ area o := (.answer (.ok ()), area, o)
  accepts o := (true, o)

end ApiInventory.Batch

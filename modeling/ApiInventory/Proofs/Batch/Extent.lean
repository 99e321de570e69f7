import ApiInventory.Proofs.Batch.Clock
import ApiInventory.Proofs.Batch.Saves

/-!
# How far a run goes

A run whose checkpoints are saved attempts the packages from the checkpoint on, up to the end of
its batch or of the list, or up to the first boundary at which the clock shows the deadline
(`Attempts`). It reads the clock at the boundaries it comes to, and nowhere else. Its summary says
so in numbers (`Summary.Adds`), and the last checkpoint that it has saved is the position that the
summary names (`Rests`). All three follow from the rules of its loop, for whatever the checkpoint,
the batch and the deadline were (`run_extent`).

That the checkpoint is then read as that position needs one thing more: the file must not take the
place of a symbolic link on the way to it. With such a link the position is saved, and not found
(`not_rests_of_link`).
-/

namespace ApiInventory.Batch

open Files (FileTree Place)

variable {σ : Type}

/-- The items that a run attempts, and what the clock shows it. -/
structure Attempts (s : Services σ) (d : Desk) (limits : Limits) (packages : List String)
    (w : Progress σ) (timeLimited : Bool) : Prop where
  /-- They are those of the list from the checkpoint on, in order. -/
  items : (turns s d limits packages w).map (fun turn => (turn.package, turn.position)) =
    (packages.zipIdx.drop (told d w.tree)).take (turns s d limits packages w).length
  /-- The clock does not show the deadline before any of them. -/
  early : ∀ time ∈ (clockTimes s (startPosition d w).2 (turns s d limits packages w)).take
    (turns s d limits packages w).length, time < limits.deadline
  /-- If it is too late, the clock shows that where the next item would have been. -/
  late : timeLimited = true →
    told d w.tree + (turns s d limits packages w).length <
        windowEnd packages.length (told d w.tree) limits.batchSize ∧
      ∃ time, (clockTimes s (startPosition d w).2 (turns s d limits packages w))[
        (turns s d limits packages w).length]? = some time ∧ limits.deadline ≤ time
  inTime : timeLimited = false →
    (turns s d limits packages w).length =
      windowEnd packages.length (told d w.tree) limits.batchSize - told d w.tree
  /-- A sum that does not go past some bound gives the same end if the list does not either. -/
  bounded : ∀ bound ≥ packages.length,
    windowEnd packages.length (told d w.tree) limits.batchSize =
      min (min (told d w.tree + max limits.batchSize 1) bound) packages.length
  /-- Each item starts where the one before it has ended, once the clock has been read. -/
  between : (turns s d limits packages w).map (·.before) =
    ((boundaries (startPosition d w).2 (turns s d limits packages w)).take
      (turns s d limits packages w).length).map (Progress.timed s)
  /-- The clock is read no more than that, except when it shows that it is too late. -/
  clock : run s.clocked d limits packages (w.having []) =
    ((run s d limits packages w).1.having
      ((clockTimes s (startPosition d w).2 (turns s d limits packages w)).take
        ((turns s d limits packages w).length + timeLimited.toNat)),
      (run s d limits packages w).2)

/-- A summary adds up what came of the items of a run. -/
structure Summary.Adds (summary : Summary) (length first batchSize : Nat)
    (outcomes : List Outcome) : Prop where
  total : summary.total = length
  start : summary.start = first
  attempted : summary.tally.attempted = outcomes.length
  recorded : summary.tally.recorded = outcomes.countP Outcome.isRecorded
  known : summary.tally.known = outcomes.countP Outcome.isKnown
  skipped : summary.tally.skipped = outcomes.countP Outcome.isSkipped
  completed : summary.passCompleted = true ↔ length ≤ first + outcomes.length
  next : summary.nextCheckpoint = if summary.passCompleted then 0 else first + outcomes.length
  notBoth : ¬(summary.timeLimited = true ∧ summary.passCompleted = true)
  full : summary.timeLimited = false → summary.passCompleted = false →
    outcomes.length = max batchSize 1

/-- Where the checkpoint rests after a run. -/
structure Rests (s : Services σ) (d : Desk) (limits : Limits) (packages : List String)
    (w : Progress σ) (summary : Summary) : Prop where
  /-- It is not saved if nothing was attempted and the pass is not completed. -/
  idle : saves s d limits packages w = [] ↔
    turns s d limits packages w = [] ∧ summary.passCompleted = false
  untouched : saves s d limits packages w = [] → (run s d limits packages w).1.tree = w.tree
  /-- What was saved last is what the summary says is next, and it stands in the file that was put
  where the path of the checkpoint led. -/
  saved : ∀ save, (saves s d limits packages w).getLast? = some save →
    save.position = summary.nextCheckpoint ∧ save.after = (run s d limits packages w).1.tree ∧
      ∃ p, CheckpointGoesTo d save.before p ∧ (run s d limits packages w).1.tree.get? p =
        some (.file (Checkpoint.content summary.nextCheckpoint))
  /-- The path leads there still, if it did not lead through the link that the file has replaced. -/
  read : ∀ save, (saves s d limits packages w).getLast? = some save → d.Keeps save.before →
    (run s d limits packages w).1.tree.read d.directory d.checkpoint =
      .ok (Checkpoint.content summary.nextCheckpoint)

section Run

variable {s : Services σ} {d : Desk} {limits : Limits} {packages : List String} {w : Progress σ}
variable {w' : Progress σ} {r : Reached}

/-- A loop leaves off behind its last turn. -/
theorem next_of_loop (looped : loop s d limits packages w = (w', .ok r)) :
    r.next = told d w.tree + (turns s d limits packages w).length := by
  obtain ⟨_, next, _⟩ := (course_of_loop looped).of_ok rfl
  rw [next, nextAfter_turns, startPosition_fst]

/-- If it was too late for an item, items are left. -/
theorem inside_of_late (looped : loop s d limits packages w = (w', .ok r))
    (late : r.timeLimited = true) :
    told d w.tree + (turns s d limits packages w).length <
      windowEnd packages.length (told d w.tree) limits.batchSize := by
  obtain ⟨left, _⟩ := (course_of_loop looped).late_of_endsLate rfl late
  rw [length_window, startPosition_fst] at left
  omega

/-- It is not too late for an item when the list is through. -/
theorem inTime_of_through (looped : loop s d limits packages w = (w', .ok r))
    (through : packages.length ≤ r.next) : r.timeLimited = false := by
  by_contra late
  have left := inside_of_late looped (Bool.eq_true_of_not_eq_false late)
  rw [next_of_loop looped] at through
  unfold windowEnd at left
  omega

/-- If it was never too late, all items of the batch are taken. -/
theorem all_of_inTime (looped : loop s d limits packages w = (w', .ok r))
    (inTime : r.timeLimited = false) :
    (turns s d limits packages w).length =
      windowEnd packages.length (told d w.tree) limits.batchSize - told d w.tree := by
  rw [(course_of_loop looped).takes_all rfl inTime, length_window, startPosition_fst]

/-- The items of a run are those of the list from the checkpoint on, in order. -/
theorem turns_items (s : Services σ) (d : Desk) (limits : Limits) (packages : List String)
    (w : Progress σ) :
    (turns s d limits packages w).map (fun turn => (turn.package, turn.position)) =
      (packages.zipIdx.drop (told d w.tree)).take (turns s d limits packages w).length := by
  have fits := (loop_course s d limits packages w).isPrefix
  rw [startPosition_fst, window, List.drop_take] at fits
  have taken := List.prefix_iff_eq_take.mp (fits.trans (List.take_prefix _ _))
  rwa [List.length_map] at taken

theorem attempts_of_loop (looped : loop s d limits packages w = (w', .ok r)) :
    Attempts s d limits packages w r.timeLimited := by
  have course := course_of_loop looped
  constructor
  case items => exact turns_items s d limits packages w
  case early => exact course.times_lt
  case late =>
    intro late
    exact ⟨inside_of_late looped late, (course.late_of_endsLate rfl late).2⟩
  case inTime => exact all_of_inTime looped
  case bounded =>
    intro bound fits
    unfold windowEnd
    omega
  case between => exact course.before_eq
  case clock =>
    rw [run_clocked, looped]
    rfl

theorem adds_of_loop (looped : loop s d limits packages w = (w', .ok r)) :
    (summaryOf packages.length (startPosition d w).1 r).Adds packages.length (told d w.tree)
      limits.batchSize ((turns s d limits packages w).map (·.outcome)) := by
  have course := course_of_loop looped
  have next := next_of_loop looped
  have tally : r.tally = _ := course.tally_eq rfl
  rw [Tally.foldl_count] at tally
  obtain ⟨_, _, attempted⟩ := course.of_ok rfl
  constructor
  case total => rfl
  case start => exact startPosition_fst d w
  case attempted =>
    rw [List.length_map]
    exact attempted.trans (Nat.zero_add _)
  case recorded => exact (congrArg Tally.recorded tally).trans (Nat.zero_add _)
  case known => exact (congrArg Tally.known tally).trans (Nat.zero_add _)
  case skipped => exact (congrArg Tally.skipped tally).trans (Nat.zero_add _)
  case completed => simp [summaryOf, next]
  case next => simp [summaryOf, next]
  case notBoth =>
    rintro ⟨late, completed⟩
    have inTime := inTime_of_through looped (of_decide_eq_true completed)
    exact Bool.eq_false_iff.mp inTime late
  case full =>
    intro inTime inside
    have all := all_of_inTime looped inTime
    have left : ¬packages.length ≤ r.next := of_decide_eq_false inside
    rw [List.length_map]
    unfold windowEnd at all
    omega

/-- The last save of a run brings about what the run leaves, and what its summary says is next. -/
theorem last_save {summary : Summary} (back : (run s d limits packages w).2 = .ok summary)
    {save : Save} (last : (saves s d limits packages w).getLast? = some save) :
    save.position = summary.nextCheckpoint ∧ save.after = (run s d limits packages w).1.tree := by
  obtain ⟨w', r, looped, rfl, ⟨inside, reset, left⟩ | ⟨through, reset, left⟩⟩ := loop_of_ok back
  · have course := course_of_loop looped
    rw [saves, reset, Option.toList_none, List.append_nil, List.getLast?_map,
      Option.map_eq_some_iff] at last
    obtain ⟨turn, last, rfl⟩ := last
    have next := (course.of_ok rfl).2.1
    have tree := course.tree_eq
    rw [nextAfter, last] at next
    rw [treeAfter, last] at tree
    rw [left]
    exact ⟨next.symm.trans (by simp [summaryOf, Nat.not_le.mpr inside]), tree.symm⟩
  · rw [saves, reset, Option.toList_some, List.getLast?_concat] at last
    cases last
    exact ⟨by simp [summaryOf, through, resetFrom], left.symm⟩

theorem rests_of_ok {summary : Summary} (back : (run s d limits packages w).2 = .ok summary) :
    Rests s d limits packages w summary := by
  have saved := run_ok_iff.mp ⟨summary, back⟩
  have made {save : Save} (last : (saves s d limits packages w).getLast? = some save) :
      save.Made d ∧ save.result = .ok () :=
    ⟨made_of_mem_saves _ (List.mem_of_getLast? last), saved _ (List.mem_of_getLast? last)⟩
  obtain ⟨w', r, looped, said, ending⟩ := loop_of_ok back
  constructor
  case idle =>
    rcases ending with ⟨inside, reset, _⟩ | ⟨through, reset, _⟩
    · simp [saves, reset, said, summaryOf, inside]
    · simp [saves, reset, said, summaryOf, through]
  case untouched =>
    intro none
    rcases ending with ⟨inside, reset, left⟩ | ⟨through, reset, _⟩
    · have tree := (course_of_loop looped).tree_eq
      rw [saves, reset, Option.toList_none, List.append_nil, List.map_eq_nil_iff] at none
      rw [none, tree_startPosition] at tree
      rw [left, tree]
      rfl
    · simp [saves, reset] at none
  case saved =>
    intro save last
    obtain ⟨next, after⟩ := last_save back last
    obtain ⟨p, goes, holds⟩ := (made last).1.placed (made last).2
    rw [next, after] at holds
    exact ⟨next, after, p, goes, holds⟩
  case read =>
    intro save last keeps
    obtain ⟨next, after⟩ := last_save back last
    have read := (made last).1.read (made last).2 keeps
    rwa [next, after] at read

/-- How a run goes whose checkpoints are saved. -/
theorem run_extent (saved : ∀ save ∈ saves s d limits packages w, save.result = .ok ()) :
    ∃ summary, (run s d limits packages w).2 = .ok summary ∧
      Attempts s d limits packages w summary.timeLimited ∧
      summary.Adds packages.length (told d w.tree) limits.batchSize
        ((turns s d limits packages w).map (·.outcome)) ∧
      Rests s d limits packages w summary := by
  obtain ⟨summary, back⟩ := run_ok_iff.mpr saved
  obtain ⟨w', r, looped, rfl, _⟩ := loop_of_ok back
  exact ⟨_, back, attempts_of_loop looped, adds_of_loop looped, rests_of_ok back⟩

end Run

theorem run_extent_of_one_item :
    ∃ summary, (run noServices sampleDesk ⟨1, 1⟩ ["a", "b", "c"] ⟨∅, (), []⟩).2 = .ok summary ∧
      Attempts noServices sampleDesk ⟨1, 1⟩ ["a", "b", "c"] ⟨∅, (), []⟩ summary.timeLimited ∧
      summary.Adds 3 (told sampleDesk ∅) 1
        ((turns noServices sampleDesk ⟨1, 1⟩ ["a", "b", "c"] ⟨∅, (), []⟩).map (·.outcome)) ∧
      Rests noServices sampleDesk ⟨1, 1⟩ ["a", "b", "c"] ⟨∅, (), []⟩ summary := by
  have back : (run noServices sampleDesk ⟨1, 1⟩ ["a", "b", "c"] ⟨∅, (), []⟩).2 =
      .ok ⟨3, 0, 1, ⟨0, 0, 1⟩, false, false⟩ := by cbv
  exact run_extent (run_ok_iff.mp ⟨_, back⟩)

/-- A checkpoint that takes the place of a link on the way to it is saved, but its path does not
lead to it. -/
theorem not_rests_of_link :
    (∀ save ∈ saves noServices linkedDesk ⟨1, 1⟩ ["a", "b"] ⟨linkedTree, (), []⟩,
      save.result = .ok ()) ∧
    ∃ summary, (run noServices linkedDesk ⟨1, 1⟩ ["a", "b"] ⟨linkedTree, (), []⟩).2 = .ok summary ∧
      summary.tally.attempted = 1 ∧ summary.nextCheckpoint = 1 ∧
      (run noServices linkedDesk ⟨1, 1⟩ ["a", "b"] ⟨linkedTree, (), []⟩).1.tree.read
        linkedDesk.directory linkedDesk.checkpoint ≠ .ok (Checkpoint.content 1) := by
  have back : (run noServices linkedDesk ⟨1, 1⟩ ["a", "b"] ⟨linkedTree, (), []⟩).2 =
      .ok ⟨2, 0, 1, ⟨0, 0, 1⟩, false, false⟩ := by cbv
  have lost : told linkedDesk
      (run noServices linkedDesk ⟨1, 1⟩ ["a", "b"] ⟨linkedTree, (), []⟩).1.tree = 0 := by cbv
  refine ⟨run_ok_iff.mp ⟨_, back⟩, _, back, rfl, rfl, fun read => ?_⟩
  rw [told, Checkpoint.load_of_read (by decide) read] at lost
  cases lost

end ApiInventory.Batch

import ApiInventory.Proofs.Batch.Checkpoint
import ApiInventory.Proofs.Batch.Items
import Mathlib

/-!
# Resumption

Runs over one list of packages go on from each other. The positions that they attempt, taken
together, walk around the list one by one (`resumption`), whatever the services do, however
large the batches are and whenever the deadlines come. All that is needed is that checkpoints
are saved, that their path still leads to them afterwards, and that nothing else moves them.

`walkAround` is the order in which positions come. One run contributes a piece of it, and
`visit_facts` says which; the rest is putting the pieces together.
-/

namespace ApiInventory.Batch

open Files (FileTree)

/-! ## Walking around a list -/

/-- So many positions of a list of a length, from one on, the first coming after the last. -/
def walkAround (total first count : Nat) : List Nat :=
  (List.range count).map fun i => (first + i) % total

/-- The position where a run starts that has been told to start at another: past the end the next
run starts from the front. -/
def entrance (total start : Nat) : Nat := if start < total then start else 0

@[simp] theorem length_walkAround (total first count : Nat) :
    (walkAround total first count).length = count := by
  simp [walkAround]

theorem walkAround_append (total first k l : Nat) :
    walkAround total first (k + l) =
      walkAround total first k ++ walkAround total ((first + k) % total) l := by
  simp only [walkAround, List.range_add, List.map_append, List.map_map]
  congr 1
  refine List.map_congr_left fun i _ => ?_
  simp [Nat.add_assoc]

theorem walkAround_of_le {total first count : Nat} (h : first + count ≤ total) :
    walkAround total first count = List.range' first count := by
  rw [walkAround, List.range'_eq_map_range]
  refine List.map_congr_left fun i member => Nat.mod_eq_of_lt ?_
  have := List.mem_range.mp member
  omega

/-- A piece of the way around is a way around itself. -/
theorem take_drop_walkAround (total first count k m : Nat) :
    ((walkAround total first count).drop k).take m =
      walkAround total (first + k) (min m (count - k)) := by
  apply List.ext_getElem
  · simp
  · intro i _ _
    simp [walkAround, Nat.add_assoc]

/-- No position comes twice on one way around. -/
theorem nodup_walkAround {total first count : Nat} (h : count ≤ total) :
    (walkAround total first count).Nodup := by
  rw [walkAround, List.nodup_map_iff_inj_on List.nodup_range]
  intro i inside j inside' same
  have := List.mem_range.mp inside
  have := List.mem_range.mp inside'
  have close : Nat.ModEq total i j := Nat.ModEq.add_left_cancel' first same
  exact close.eq_of_lt_of_lt (by omega) (by omega)

/-- Once around, every position has come. -/
theorem perm_walkAround (total first : Nat) :
    (walkAround total first total).Perm (List.range total) := by
  have inside : walkAround total first total ⊆ List.range total := by
    intro p member
    obtain ⟨i, mem, rfl⟩ := List.mem_map.mp member
    have := List.mem_range.mp mem
    exact List.mem_range.mpr (Nat.mod_lt _ (by omega))
  exact ((nodup_walkAround (Nat.le_refl total)).subperm inside).perm_of_length_le (by simp)

/-! ## One run after the other -/

/-- What remains of a run: the positions it attempted, what it said at its end and the tree it
left. -/
structure Visit where
  positions : List Nat
  summary : Summary
  tree : FileTree

/-- A checkpoint that is saved in a tree is then where its path leads. It is not if the path goes
through a symbolic link that the file takes the place of. -/
def Desk.Keeps (d : Desk) (t : FileTree) : Prop :=
  (t.makeDirectories d.directory (FileTree.parentOf d.checkpoint)).tree.Steady d.directory
    d.checkpoint

/-- The checkpoints that a run saves are where their path leads, those after its items and the one
at the end of the list. -/
def RunKeeps {σ : Type} (s : Services σ) (d : Desk) (limits : Limits) (packages : List String)
    (w : Progress σ) : Prop :=
  (∀ turn ∈ turns s d limits packages w, d.Keeps turn.attempted.tree) ∧
    ∀ summary, (run s d limits packages w).2 = .ok summary → summary.passCompleted = true →
      d.Keeps (treeAfter w.tree (turns s d limits packages w))

/-- Runs over one list of packages, one after the other, each with services, limits and an
outside of its own. Every checkpoint that a run wants to save is saved, since it comes back with a
summary. Between runs anything may happen to the tree, except that the checkpoint stands. -/
inductive Visits (d : Desk) (packages : List String) : FileTree → List Visit → Prop
  | done {t : FileTree} : Visits d packages t []
  | run {σ : Type} {s : Services σ} {limits : Limits} {w : Progress σ} {summary : Summary}
      {t : FileTree} {rest : List Visit} (keeps : RunKeeps s d limits packages w)
      (back : (run s d limits packages w).2 = .ok summary)
      (between : Checkpoint.load t d.directory d.checkpoint =
        Checkpoint.load (run s d limits packages w).1.tree d.directory d.checkpoint)
      (onward : Visits d packages t rest) :
      Visits d packages w.tree
        (⟨(turns s d limits packages w).map (·.position), summary,
          (run s d limits packages w).1.tree⟩ :: rest)

section Visit

variable {σ : Type} {s : Services σ} {d : Desk} {limits : Limits} {packages : List String}
variable {w : Progress σ} {summary : Summary}

theorem keeps_of_noLinks {t : FileTree} (noLinks : t.NoLinks) : d.Keeps t := by
  have made := FileTree.makeDirectories_evolves (fun _ => True) t d.directory
    (FileTree.parentOf d.checkpoint)
  exact FileTree.always_steady_of_noLinks noLinks _ _ _ made

/-- Where no links are, all checkpoints that are saved are found. -/
theorem runKeeps_of_noLinks (noLinks : w.tree.NoLinks) : RunKeeps s d limits packages w := by
  have loop := run_course s d limits packages w
  constructor
  · intro turn member
    have before := (turns_invariant s limits packages
      (fun _ t => w.tree.Evolves (fun _ => True) t) (.refl _ _)
      fun package position w' _ before _ =>
        before.trans (takeTurn_evolves s d package position w').2).1 turn member
    have attempted := (takeTurn_evolves s d turn.package turn.position turn.before).1
    rw [← loop.mem_eq turn member] at attempted
    exact keeps_of_noLinks ((before.trans attempted).noLinks noLinks)
  · intro _ _ _
    have evolution := loop.evolves
    rw [loop.tree_eq, tree_startPosition] at evolution
    exact keeps_of_noLinks (evolution.noLinks noLinks)

/-- Where a turn has ended with its checkpoint saved, the next position is told. -/
theorem told_after_turns (small : packages.length < Text.counterBound)
    (keeps : ∀ turn ∈ turns s d limits packages w, d.Keeps turn.attempted.tree)
    (saved : ∀ turn ∈ turns s d limits packages w, turn.saved = .ok ()) :
    told d (treeAfter w.tree (turns s d limits packages w)) =
      (startPosition d w).1 + (turns s d limits packages w).length := by
  rw [← nextAfter_turns, treeAfter, nextAfter]
  cases last : (turns s d limits packages w).getLast? with
  | none => exact (startPosition_fst d w).symm
  | some turn =>
      have member := List.mem_of_getLast? last
      have inside := (List.getElem?_eq_some_iff.mp (getElem?_of_mem_turns member)).1
      have taken := (run_course s d limits packages w).mem_eq turn member
      have done := saved turn member
      have keeps := keeps turn member
      rw [taken, takeTurn_saved] at done
      rw [taken, takeTurn_attempted_tree] at keeps
      rw [taken]
      exact congrArg Prod.fst (Checkpoint.load_save (by omega) done keeps)

/-- What a run says is next is what the checkpoint tells afterwards. -/
theorem told_after_run (small : packages.length < Text.counterBound)
    (keeps : RunKeeps s d limits packages w)
    (back : (run s d limits packages w).2 = .ok summary) :
    told d (run s d limits packages w).1.tree = summary.nextCheckpoint := by
  obtain ⟨_, begun, _, saved, ending⟩ := run_ok back
  have after := told_after_turns small keeps.1 saved
  rw [begun, nextAfter_turns] at ending
  rcases ending with ⟨_, _, next, tree⟩ | ⟨_, completed, next, _, reset, tree⟩
  · rw [tree, after, next]
  · have steady := keeps.2 summary back completed
    rw [tree, next, told, Checkpoint.load_save (by omega) reset steady]

/-- A run walks on from where it is told to, and tells the next one to go on from there. -/
theorem visit_facts (some : packages ≠ []) (small : packages.length < Text.counterBound)
    (keeps : RunKeeps s d limits packages w)
    (back : (run s d limits packages w).2 = .ok summary) :
    (turns s d limits packages w).map (·.position) =
        walkAround packages.length (entrance packages.length (told d w.tree))
          (turns s d limits packages w).length ∧
      (packages.length ≤ told d w.tree → turns s d limits packages w = []) ∧
      summary.nextCheckpoint =
        (entrance packages.length (told d w.tree) + (turns s d limits packages w).length) %
          packages.length ∧
      told d (run s d limits packages w).1.tree = summary.nextCheckpoint := by
  have start : (startPosition d w).1 = told d w.tree := startPosition_fst d w
  have positive : 0 < packages.length := List.length_pos_iff.mpr some
  obtain ⟨_, begun, _, _, ending⟩ := run_ok back
  rw [begun, nextAfter_turns, start] at ending
  have tells := told_after_run small keeps back
  have positions := turns_positions s d limits packages w
  rw [start] at positions
  by_cases stale : packages.length ≤ told d w.tree
  · -- nothing is left to attempt, and the checkpoint goes back to the front
    have none : turns s d limits packages w = [] := by
      by_contra attempted
      have inside := turns_inside attempted
      have := List.length_pos_iff.mpr attempted
      omega
    rcases ending with ⟨within, _⟩ | ⟨_, _, next, _⟩
    · omega
    · refine ⟨by simp [none, walkAround], fun _ => none, ?_, tells⟩
      simp [next, none, entrance, Nat.not_lt.mpr stale]
  · have entered : entrance packages.length (told d w.tree) = told d w.tree :=
      if_pos (Nat.lt_of_not_le stale)
    have inside : told d w.tree + (turns s d limits packages w).length ≤ packages.length := by
      by_cases none : turns s d limits packages w = []
      · simp [none]
        omega
      · rw [← start]
        exact turns_inside none
    rw [entered]
    refine ⟨by rw [positions, walkAround_of_le inside], fun h => absurd h stale, ?_, tells⟩
    rcases ending with ⟨within, _, next, _⟩ | ⟨through, _, next, _⟩
    · rw [next, Nat.mod_eq_of_lt within]
    · have whole : told d w.tree + (turns s d limits packages w).length = packages.length := by omega
      rw [next, whole, Nat.mod_self]

end Visit

/-! ## All runs together -/

/-- Runs that lose and repeat nothing, the first of them told to start at a position. -/
structure Resumption (d : Desk) (packages : List String) (start : Nat) (visits : List Visit) :
    Prop where
  /-- Each position is followed by the next one, and the last by the first. -/
  inTurn : visits.flatMap (·.positions) =
    walkAround packages.length (entrance packages.length start)
      (visits.flatMap (·.positions)).length
  /-- A run that is told a position past the end attempts nothing. -/
  stale : packages.length ≤ start → ∀ visit ∈ visits.head?, visit.positions = []
  /-- No run goes past the end. -/
  inside : ∀ visit ∈ visits, ∃ first,
    visit.positions = List.range' first visit.positions.length ∧
      first + visit.positions.length ≤ packages.length
  /-- The summary counts what was attempted. -/
  counted : ∀ visit ∈ visits, visit.summary.tally.attempted = visit.positions.length
  /-- As many attempts in a row as there are packages, or fewer, repeat none. -/
  once : ∀ k, (((visits.flatMap (·.positions)).drop k).take packages.length).Nodup
  /-- As many attempts in a row as there are packages skip none. -/
  whole : ∀ k, k + packages.length ≤ (visits.flatMap (·.positions)).length →
    (((visits.flatMap (·.positions)).drop k).take packages.length).Perm
      (List.range packages.length)
  /-- What the summary says is next is what the checkpoint tells. -/
  told : ∀ visit ∈ visits, told d visit.tree = visit.summary.nextCheckpoint
  /-- It is where the next run starts that attempts anything. -/
  next : ∀ before visit idle following after,
    visits = before ++ visit :: (idle ++ following :: after) →
    (∀ v ∈ idle, v.positions = []) → following.positions ≠ [] →
    following.positions.head? = some visit.summary.nextCheckpoint

namespace Visits

variable {d : Desk} {packages : List String} {t : FileTree} {visits : List Visit}

theorem inTurn (h : Visits d packages t visits) (some : packages ≠ [])
    (small : packages.length < Text.counterBound) :
    visits.flatMap (·.positions) =
      walkAround packages.length (entrance packages.length (told d t))
        (visits.flatMap (·.positions)).length := by
  induction h with
  | done => simp [walkAround]
  | @run σ s limits w summary t rest keeps back between onward ih =>
      obtain ⟨positions, _, next, tells⟩ := visit_facts some small keeps back
      have positive : 0 < packages.length := List.length_pos_iff.mpr some
      have onto : told d t = summary.nextCheckpoint := by
        rw [told, between]
        exact tells
      have within : summary.nextCheckpoint < packages.length := by
        rw [next]
        exact Nat.mod_lt _ positive
      rw [onto, entrance, if_pos within] at ih
      rw [List.flatMap_cons, List.length_append, walkAround_append]
      dsimp only
      rw [List.length_map, ← positions, ← next, ← ih]

theorem of_mem (h : Visits d packages t visits) (some : packages ≠ [])
    (small : packages.length < Text.counterBound) : ∀ visit ∈ visits,
    (∃ first, visit.positions = List.range' first visit.positions.length ∧
      first + visit.positions.length ≤ packages.length) ∧
    visit.summary.tally.attempted = visit.positions.length ∧
    told d visit.tree = visit.summary.nextCheckpoint := by
  induction h with
  | done => simp
  | @run σ s limits w summary t rest keeps back between onward ih =>
      intro visit member
      rcases List.mem_cons.mp member with rfl | member
      · obtain ⟨_, _, _, tells⟩ := visit_facts some small keeps back
        refine ⟨?_, by simpa using (run_ok back).2.2.1, tells⟩
        by_cases none : turns s d limits packages w = []
        · exact ⟨0, by simp [none], by simp [none]⟩
        · refine ⟨(startPosition d w).1, ?_, ?_⟩
          · simpa using turns_positions s d limits packages w
          · simpa using turns_inside none
      · exact ih visit member

/-- Runs that attempt nothing change nothing for the next one. -/
theorem head?_positions {idle after : List Visit} {following : Visit} (some : packages ≠ [])
    (small : packages.length < Text.counterBound)
    (h : Visits d packages t (idle ++ following :: after)) (inside : told d t < packages.length)
    (nothing : ∀ v ∈ idle, v.positions = []) (attempts : following.positions ≠ []) :
    following.positions.head? = .some (told d t) := by
  induction idle generalizing t with
  | nil =>
      cases h with
      | @run σ s limits w summary =>
        dsimp only at attempts ⊢
        rw [turns_positions, startPosition_fst, List.head?_range', if_neg]
        simpa using attempts
  | cons visit idle ih =>
      cases h with
      | @run σ s limits w summary t' _ keeps back between onward =>
        obtain ⟨_, _, next, tells⟩ := visit_facts some small keeps back
        have none : turns s d limits packages w = [] :=
          List.map_eq_nil_iff.mp (nothing _ List.mem_cons_self)
        have same : told d t' = told d w.tree := by
          rw [told, between]
          refine tells.trans ?_
          rw [next, none, entrance, if_pos inside, List.length_nil, Nat.add_zero,
            Nat.mod_eq_of_lt inside]
        rw [← same]
        exact ih onward (by rwa [same]) fun v member => nothing v (List.mem_cons_of_mem _ member)

theorem next {before idle after : List Visit} {visit following : Visit} (some : packages ≠ [])
    (small : packages.length < Text.counterBound)
    (h : Visits d packages t (before ++ visit :: (idle ++ following :: after)))
    (nothing : ∀ v ∈ idle, v.positions = []) (attempts : following.positions ≠ []) :
    following.positions.head? = .some visit.summary.nextCheckpoint := by
  induction before generalizing t with
  | nil =>
      cases h with
      | @run σ s limits w summary t' _ keeps back between onward =>
        obtain ⟨_, _, next, tells⟩ := visit_facts some small keeps back
        have onto : told d t' = summary.nextCheckpoint := by
          rw [told, between]
          exact tells
        have within : told d t' < packages.length := by
          rw [onto, next]
          exact Nat.mod_lt _ (List.length_pos_iff.mpr some)
        rw [head?_positions some small onward within nothing attempts, onto]
  | cons first before ih =>
      cases h with
      | run _ _ _ onward => exact ih onward

end Visits

/-- However a list of packages is worked off, run after run, nothing is lost and nothing is
repeated. The length of the list has to fit a counter, as every length does. -/
theorem resumption {d : Desk} {packages : List String} {t : FileTree} {visits : List Visit}
    (some : packages ≠ []) (small : packages.length < Text.counterBound)
    (runs : Visits d packages t visits) : Resumption d packages (told d t) visits := by
  have inTurn := runs.inTurn some small
  have of_mem := runs.of_mem some small
  refine ⟨inTurn, ?_, fun v member => (of_mem v member).1, fun v member => (of_mem v member).2.1,
    ?_, ?_, fun v member => (of_mem v member).2.2, ?_⟩
  · intro past visit first
    cases runs with
    | done => simp at first
    | run keeps back _ _ =>
      obtain rfl := Option.some.inj first
      simp [(visit_facts some small keeps back).2.1 past]
  · intro k
    rw [inTurn, take_drop_walkAround]
    exact nodup_walkAround (Nat.min_le_left ..)
  · intro k fits
    have long : min packages.length ((visits.flatMap (·.positions)).length - k) =
        packages.length := by omega
    rw [inTurn, take_drop_walkAround, long]
    exact perm_walkAround _ _
  · rintro before visit idle following after rfl nothing attempts
    exact runs.next some small nothing attempts

theorem resumption_of_two_runs :
    ∃ visits, visits.map (·.positions) = [[0], [1, 2]] ∧
      Resumption sampleDesk ["a", "b", "c"] (told sampleDesk ∅) visits := by
  have noLinks := (run_evolves noServices sampleDesk ⟨1, 1⟩ ["a", "b", "c"] ⟨∅, (), []⟩).noLinks
    FileTree.noLinks_empty
  have first : (run noServices sampleDesk ⟨1, 1⟩ ["a", "b", "c"] ⟨∅, (), []⟩).2 =
      .ok ⟨3, 0, 1, ⟨0, 0, 1⟩, false, false⟩ := by cbv
  have second : (run noServices sampleDesk ⟨5, 1⟩ ["a", "b", "c"]
      (run noServices sampleDesk ⟨1, 1⟩ ["a", "b", "c"] ⟨∅, (), []⟩).1).2 =
      .ok ⟨3, 1, 0, ⟨0, 0, 2⟩, false, true⟩ := by cbv
  have visits := Visits.run (runKeeps_of_noLinks FileTree.noLinks_empty) first rfl
    (.run (runKeeps_of_noLinks noLinks) second rfl .done)
  exact ⟨_, by cbv, resumption (by simp) (by decide) visits⟩

/-- A desk whose checkpoint lies behind a symbolic link. -/
def linkedDesk : Desk := ⟨[], ⟨"db"⟩, "l/l", "/"⟩

/-- A tree with that link, which leads back to where it is. -/
def linkedTree : FileTree := ⟨[(["l"], .link ".")], []⟩

/-- A checkpoint that takes the place of a link on the way to it is lost, though it was saved: the
summary says that the run goes on from the second package, the checkpoint from the first. -/
theorem not_resumption_of_link :
    ∃ summary, (run noServices linkedDesk ⟨1, 1⟩ ["a", "b"] ⟨linkedTree, (), []⟩).2 = .ok summary ∧
      ¬Resumption linkedDesk ["a", "b"] (told linkedDesk linkedTree)
        [⟨(turns noServices linkedDesk ⟨1, 1⟩ ["a", "b"] ⟨linkedTree, (), []⟩).map (·.position),
          summary, (run noServices linkedDesk ⟨1, 1⟩ ["a", "b"] ⟨linkedTree, (), []⟩).1.tree⟩] := by
  refine ⟨⟨2, 0, 1, ⟨0, 0, 1⟩, false, false⟩, by cbv, fun resumption => ?_⟩
  have tells := resumption.told _ (List.mem_singleton.mpr rfl)
  have lost : told linkedDesk
      (run noServices linkedDesk ⟨1, 1⟩ ["a", "b"] ⟨linkedTree, (), []⟩).1.tree = 0 := by cbv
  rw [lost] at tells
  cases tells

end ApiInventory.Batch

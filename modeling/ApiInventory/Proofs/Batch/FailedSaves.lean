import ApiInventory.Proofs.Batch.Extent
import ApiInventory.Proofs.Batch.Layout
import ApiInventory.Proofs.Batch.WriteOnce

/-!
# Checkpoints that cannot be saved

A run fails exactly if one of its saves does, and that is the last thing it does (`Stops`). No item
is lost by it: the checkpoint is still the last one that was saved, which is never past an item that
was not attempted, and whatever was recorded stays and is known when it comes up again
(`LosesNothing`). An item whose checkpoint was not saved is attempted once more, at worst.

This needs a desk that keeps things apart (`Desk.Layout`). With a link that gives way to a saved
checkpoint, a save that fails can leave the run back where it began
(`not_losesNothing_of_link`).
-/

namespace ApiInventory.Batch

open Files (FileTree Place)

/-! ## A run on a desk that keeps things apart -/

namespace Desk.Layout

variable {σ : Type} {s : Services σ} {d : Desk} {limits : Limits} {packages : List String}
variable {w : Progress σ} {t : FileTree} {S C : Place}

theorem place_eq (layout : d.Layout t S C) {p : Place} (goes : CheckpointGoesTo d t p) : p = C :=
  (layout.checkpoint _ (FileTree.makeDirectories_evolves _ t _ _) p goes).1

/-- If it can be read and is no link, then an item leaves its content. -/
theorem read_attempt (layout : d.Layout w.tree S C) (s : Services σ) (package : String)
    (plain : ∀ target, w.tree.get? C ≠ some (.link target)) {content : ByteArray}
    (read : w.tree.read d.directory d.checkpoint = .ok content) :
    (Item.attempt s d package w).1.tree.read d.directory d.checkpoint = .ok content :=
  layout.attempt_induction s package (fun t => t.read d.directory d.checkpoint = .ok content) read
    (fun _ same => (same.read _ _).trans read)
    fun _ _ _ unknown written => layout.read_write plain unknown written read

theorem evolves_takeTurn (layout : d.Layout w.tree S C) (s : Services σ) (package : String)
    (position : Nat) :
    w.tree.Evolves (Touched S C) (takeTurn s d package position w).attempted.tree ∧
      w.tree.Evolves (Touched S C) (takeTurn s d package position w).after.tree := by
  have attempted := layout.attempt_evolves s package
  exact ⟨attempted, attempted.trans ((layout.later attempted).save_evolves _ _)⟩

theorem evolves_turns (layout : d.Layout w.tree S C) (s : Services σ) (limits : Limits)
    (packages : List String) :
    (∀ turn ∈ turns s d limits packages w, w.tree.Evolves (Touched S C) turn.before.tree) ∧
      w.tree.Evolves (Touched S C) (treeAfter w.tree (turns s d limits packages w)) := by
  refine (turns_chain s d limits packages w).invariant _ (.refl _ _) fun turn member before => ?_
  have onward := ((layout.later before).evolves_takeTurn s turn.package turn.position).2
  rw [← eq_takeTurn_of_mem_turns member] at onward
  exact before.trans onward

theorem evolves_run (layout : d.Layout w.tree S C) (s : Services σ) (limits : Limits)
    (packages : List String) : w.tree.Evolves (Touched S C) (run s d limits packages w).1.tree := by
  have turns := (layout.evolves_turns s limits packages).2
  rcases run_tree s d limits packages w with tree | ⟨accepted, tree⟩
  · rwa [tree]
  · rw [tree]
    exact turns.trans ((layout.later turns).save_evolves _ _)

/-- What items and saves keep holds to the end of a run, from any of its items on. -/
theorem to_end (layout : d.Layout w.tree S C) {turn : Turn σ}
    (member : turn ∈ turns s d limits packages w) (holds : FileTree → Prop)
    (first : holds turn.attempted.tree)
    (item : ∀ package (w : Progress σ), d.Layout w.tree S C → holds w.tree →
      holds (Item.attempt s d package w).1.tree)
    (save : ∀ t position accepted, d.Layout t S C → holds t →
      holds (Checkpoint.save t d.directory d.checkpoint position accepted).tree) :
    holds (run s d limits packages w).1.tree := by
  have step (x : Turn σ) (taken : x ∈ turns s d limits packages w)
      (attempted : holds x.attempted.tree) : holds x.after.tree := by
    have before := (layout.evolves_turns s limits packages).1 x taken
    have there := layout.later (before.trans
      ((layout.later before).evolves_takeTurn s x.package x.position).1)
    rw [eq_takeTurn_of_mem_turns taken] at attempted ⊢
    exact save _ _ _ there attempted
  obtain ⟨earlier, later, split⟩ := List.append_of_mem member
  have chain := turns_chain s d limits packages w
  rw [split] at chain
  obtain ⟨_, onward⟩ := chain.of_append.2.onward.invariant holds (step turn member first)
    fun x among before => by
      have taken : x ∈ turns s d limits packages w := by simp [split, among]
      have there := layout.later ((layout.evolves_turns s limits packages).1 x taken)
      refine step x taken ?_
      rw [eq_takeTurn_of_mem_turns taken]
      exact item x.package x.before there before
  have ends : treeAfter w.tree (turns s d limits packages w) = treeAfter turn.after.tree later := by
    rw [split, treeAfter_append, treeAfter_cons]
  rcases run_tree s d limits packages w with tree | ⟨accepted, tree⟩
  · rw [tree, ends]
    exact onward
  · rw [tree, ends]
    have there := layout.later (layout.evolves_turns s limits packages).2
    rw [ends] at there
    exact save _ _ _ there onward

end Desk.Layout

/-! ## What the checkpoint tells -/

/-- A save that was made. -/
def Save.isMade (save : Save) : Bool :=
  match save.result with
  | .ok () => true
  | .error _ => false

theorem Save.isMade_of_ok {save : Save} (made : save.result = .ok ()) : save.isMade = true := by
  rw [Save.isMade, made]

theorem Save.isMade_of_error {save : Save} {e : Files.FileError} (failed : save.result = .error e) :
    save.isMade = false := by
  rw [Save.isMade, failed]

/-- The position that was saved last, or the one before all saves if none was made. -/
def lastMade (start : Nat) (saves : List Save) : Nat :=
  ((saves.filter Save.isMade).getLast?.map Save.position).getD start

theorem lastMade_cons_of_ok (start : Nat) {save : Save} (saves : List Save)
    (made : save.result = .ok ()) :
    lastMade start (save :: saves) = lastMade save.position saves := by
  rw [lastMade, lastMade, List.filter_cons_of_pos (Save.isMade_of_ok made), List.getLast?_cons]
  cases (saves.filter Save.isMade).getLast? <;> rfl

theorem lastMade_cons_of_error (start : Nat) {save : Save} (saves : List Save)
    {e : Files.FileError} (failed : save.result = .error e) :
    lastMade start (save :: saves) = lastMade start saves := by
  rw [lastMade, lastMade, List.filter_cons_of_neg (by simp [Save.isMade_of_error failed])]

theorem lastMade_append (start : Nat) (first second : List Save) :
    lastMade start (first ++ second) = lastMade (lastMade start first) second := by
  rw [lastMade, lastMade, List.filter_append, List.getLast?_append]
  cases (second.filter Save.isMade).getLast? <;> rfl

theorem lastMade_cases (start : Nat) (saves : List Save) :
    lastMade start saves = start ∨ ∃ save ∈ saves, lastMade start saves = save.position := by
  rw [lastMade]
  cases last : (saves.filter Save.isMade).getLast? with
  | none => exact .inl rfl
  | some save => exact .inr ⟨save, (List.mem_filter.mp (List.mem_of_getLast? last)).1, rfl⟩

/-- A save that was not made has not changed what the checkpoint tells. -/
def Save.LeavesTold (d : Desk) (save : Save) : Prop :=
  save.isMade = false → told d save.after = told d save.before

/-- This can be seen by running the saves. -/
theorem leavesTold_of_all {d : Desk} {saves : List Save}
    (all : saves.all (fun save => save.isMade || told d save.after == told d save.before) = true) :
    ∀ save ∈ saves, save.LeavesTold d := by
  intro save member unmade
  have either := List.all_eq_true.mp all save member
  simpa [unmade] using either

/-- A checkpoint that could be read is left as it was by a save that was not made. -/
theorem Save.Made.read_of_not_isMade {d : Desk} {save : Save} (made : save.Made d)
    (unmade : save.isMade = false) {content : ByteArray}
    (read : save.before.read d.directory d.checkpoint = .ok content) :
    save.after.read d.directory d.checkpoint = .ok content := by
  obtain ⟨accepted, attempt⟩ := made
  have after : save.after = (Checkpoint.save save.before d.directory d.checkpoint save.position
      accepted).tree := by rw [attempt]
  cases result : save.result with
  | ok => cases (Save.isMade_of_ok result).symm.trans unmade
  | error e =>
      have failed : (Checkpoint.save save.before d.directory d.checkpoint save.position
          accepted).result = .error e := by rw [attempt, result]
      rw [after]
      exact FileTree.read_replaceFile_of_error failed read

/-- A position that is saved is what the checkpoint tells then. -/
theorem Save.Made.told_position {d : Desk} {save : Save} {S C : Place} (made : save.Made d)
    (layout : d.Layout save.before S C) (small : save.position < Text.counterBound)
    (done : save.result = .ok ()) : told d save.after = save.position := by
  obtain ⟨accepted, attempt⟩ := made
  have result : (Checkpoint.save save.before d.directory d.checkpoint save.position
      accepted).result = .ok () := by rw [attempt, done]
  have tells := layout.told_save small result
  rwa [attempt] at tells

section Told

variable {σ : Type} {s : Services σ} {d : Desk} {S C : Place}

/-- The checkpoint tells what was saved last. -/
theorem Course.told_eq {deadline : Nat} {items : List (String × Nat)} {r : Reached}
    {w : Progress σ} {turns : List (Turn σ)} {out : Progress σ × Except RunError Reached}
    (h : Course s d deadline items r w turns out) (layout : d.Layout w.tree S C)
    (small : ∀ item ∈ items, item.2 + 1 < Text.counterBound)
    (leaves : ∀ turn ∈ turns, turn.save.LeavesTold d) :
    told d out.1.tree = lastMade (told d w.tree) (turns.map Turn.save) := by
  induction h with
  | through | late => rfl
  | @failed package position _ _ w e _ failed =>
      have kept := leaves _ (List.mem_singleton.mpr rfl) (Save.isMade_of_error failed)
      have attempted := Desk.Layout.told_attempt (w := w.timed s) layout s package
      rw [List.map_singleton, lastMade_cons_of_error _ _ failed]
      exact kept.trans attempted
  | @turn package position _ _ w _ _ _ saved _ ih =>
      have layout : d.Layout (w.timed s).tree S C := layout
      obtain ⟨attempted, after⟩ := layout.evolves_takeTurn s package position
      have next := (layout.later attempted).told_save (small _ List.mem_cons_self) saved
      rw [List.map_cons, lastMade_cons_of_ok _ _ saved]
      have rest := ih (layout.later after)
        (fun item member => small item (List.mem_cons_of_mem _ member))
        (fun turn member => leaves turn (List.mem_cons_of_mem _ member))
      rw [rest]
      exact congrArg (lastMade · _) next

variable {limits : Limits} {packages : List String} {w : Progress σ}

theorem told_run (small : packages.length < Text.counterBound) (layout : d.Layout w.tree S C)
    (leaves : ∀ save ∈ saves s d limits packages w, save.LeavesTold d) :
    told d (run s d limits packages w).1.tree =
      lastMade (told d w.tree) (saves s d limits packages w) := by
  have layout' : d.Layout (startPosition d w).2.tree S C := by rwa [tree_startPosition]
  have inside : ∀ item ∈ window packages (startPosition d w).1 limits.batchSize,
      item.2 + 1 < Text.counterBound := by
    rintro ⟨package, position⟩ member
    have there := (List.getElem?_eq_some_iff.mp (getElem?_of_mem_window member)).1
    exact Nat.lt_of_le_of_lt there small
  have of_turns : ∀ turn ∈ turns s d limits packages w, turn.save.LeavesTold d := fun turn member =>
    leaves turn.save (List.mem_append_left _ (List.mem_map_of_mem member))
  have course := loop_course s d limits packages w
  have tells := course.told_eq layout' inside of_turns
  rw [course.tree_eq, tree_startPosition] at tells
  rcases tree_of_saves with ⟨none, tree⟩ | ⟨save, some, zero, made, before, after⟩
  · rw [saves, none, Option.toList_none, List.append_nil, tree, tells]
  · rw [saves, some] at leaves ⊢
    rw [lastMade_append, ← tells, ← before, ← after, Option.toList_some]
    have there := layout.later (layout.evolves_turns s limits packages).2
    rw [← before] at there
    have reset := leaves save (by simp)
    cases result : save.result with
    | ok =>
        rw [lastMade_cons_of_ok _ _ result]
        exact made.told_position there (by omega) result
    | error e =>
        rw [lastMade_cons_of_error _ _ result]
        exact reset (Save.isMade_of_error result)

/-- If nothing is saved, a checkpoint that can be read and is no link keeps its content. -/
theorem read_run (layout : d.Layout w.tree S C)
    (unmade : ∀ save ∈ saves s d limits packages w, save.isMade = false)
    (plain : ∀ target, w.tree.get? C ≠ some (.link target)) {content : ByteArray}
    (read : w.tree.read d.directory d.checkpoint = .ok content) :
    (run s d limits packages w).1.tree.read d.directory d.checkpoint = .ok content := by
  have leaves : ∀ save ∈ saves s d limits packages w,
      save.before.read d.directory d.checkpoint = .ok content →
      save.after.read d.directory d.checkpoint = .ok content := fun save member before =>
    (made_of_mem_saves save member).read_of_not_isMade (unmade save member) before
  have ends := ((turns_chain s d limits packages w).invariant
    (fun t => t.read d.directory d.checkpoint = .ok content) read fun turn member before => by
      have evolution := (layout.evolves_turns s limits packages).1 turn member
      have attempted := (layout.later evolution).read_attempt s turn.package
        (fun target link => plain target (evolution.link_before link)) before
      refine leaves turn.save (List.mem_append_left _ (List.mem_map_of_mem member)) ?_
      rw [eq_takeTurn_of_mem_turns member]
      exact attempted).2
  rcases tree_of_saves with ⟨_, tree⟩ | ⟨save, some, _, _, before, after⟩
  · rwa [tree]
  · rw [← before] at ends
    rw [← after]
    exact leaves save (List.mem_append_right _ (by simp [some])) ends

/-- What is saved is not past the items that were attempted. -/
theorem exists_turn_of_lt_lastMade {i : Nat} (onward : told d w.tree ≤ i)
    (passed : i < lastMade (told d w.tree) (saves s d limits packages w)) :
    ∃ turn ∈ turns s d limits packages w, turn.position = i := by
  have positions := turns_positions s d limits packages w
  rw [startPosition_fst] at positions
  rcases lastMade_cases (told d w.tree) (saves s d limits packages w) with
    same | ⟨save, member, last⟩
  · omega
  · rw [last] at passed
    rcases List.mem_append.mp member with of_turn | of_reset
    · obtain ⟨turn, taken, rfl⟩ := List.mem_map.mp of_turn
      have among : turn.position ∈ (turns s d limits packages w).map (·.position) :=
        List.mem_map_of_mem taken
      have passed : i < turn.position + 1 := passed
      rw [positions, List.mem_range'_1] at among
      have there : i ∈ (turns s d limits packages w).map (·.position) := by
        rw [positions, List.mem_range'_1]
        omega
      exact List.mem_map.mp there
    · have reset := position_of_mem_resetSave? of_reset
      omega

end Told

/-! ## What was recorded -/

section Records

variable {σ : Type} {s : Services σ} {d : Desk} {S C : Place} {limits : Limits}
variable {packages : List String} {w : Progress σ}

/-- An item that has recorded its package has put the record in the store, which is open. -/
theorem Desk.Layout.of_recorded (layout : d.Layout w.tree S C) {package record : String}
    {symbols : Nat} (recorded : (Item.attempt s d package w).2 = .recorded record symbols) :
    isSafePart package = true ∧
      (∃ version, (s.resolve package w.outside).1 = .answer (some version) ∧
        record = recordName package (versionToken version)) ∧
      (Item.attempt s d package w).1.tree.isLocked S = false ∧
      ∃ content, (Item.attempt s d package w).1.tree.get? (S ++ [record]) =
        some (.file content) := by
  have evolution := layout.attempt_evolves s package
  have replied := (Item.attempt_eq_recorded_iff s d package w).mp recorded
  rw [Item.attempt_tree]
  rcases Item.process_cases s d package w with
    ⟨_, nothing⟩ | ⟨version, safe, resolved, _, recording⟩
  · exact absurd replied (nothing record symbols)
  · rw [replied] at recording
    obtain ⟨table, accepted, _, written, after, rfl, _⟩ := recording.of_recorded
    obtain ⟨unlocked, noDirectory, alike⟩ := RecordStore.write_of_ok layout.find_store written
    have ne := FileTree.ne_nil_of_get?_ne_directory noDirectory
    rw [Item.attempt_tree] at evolution
    refine ⟨safe, ⟨version, resolved, rfl⟩, evolution.unlocked S unlocked, RecordStore.body table,
      ?_⟩
    rw [after, alike.get?, FileTree.get?_set _ _ _ _ ne, if_pos rfl]

theorem Desk.Layout.of_recorded_turn (layout : d.Layout w.tree S C) {turn : Turn σ}
    (member : turn ∈ turns s d limits packages w) {record : String} {symbols : Nat}
    (recorded : turn.outcome = .recorded record symbols) :
    isSafePart turn.package = true ∧
      (∃ version, (s.resolve turn.package turn.before.outside).1 = .answer (some version) ∧
        record = recordName turn.package (versionToken version)) ∧
      turn.attempted.tree.isLocked S = false ∧
      ∃ content, turn.attempted.tree.get? (S ++ [record]) = some (.file content) := by
  have there := layout.later ((layout.evolves_turns s limits packages).1 turn member)
  have taken := eq_takeTurn_of_mem_turns member
  rw [taken] at recorded ⊢
  exact there.of_recorded recorded

/-- A package whose record is a file in the store is known. -/
theorem Desk.Layout.known_of_file (layout : d.Layout w.tree S C) {package version : String}
    {content : ByteArray} (safe : isSafePart package = true) (unlocked : w.tree.isLocked S = false)
    (resolved : (s.resolve package w.outside).1 = .answer (some version))
    (entry : w.tree.get? (S ++ [recordName package (versionToken version)]) =
      some (.file content)) :
    (Item.attempt s d package w).2 = .known (versionToken version) := by
  have known := RecordStore.has_of_get? layout.find_store unlocked entry
  have replied := (Item.process_of_known s d package safe resolved known).2
  unfold Item.attempt
  split
  · rename_i outcome e
    rw [e] at replied
    exact Reply.answer.inj replied
  · rename_i message e
    rw [e] at replied
    cases replied

/-- A record stays as it was written to the end of the run, unless the checkpoint lies there. -/
theorem Desk.Layout.record_kept (layout : d.Layout w.tree S C) {turn : Turn σ}
    (member : turn ∈ turns s d limits packages w) {p : Place} {content : ByteArray} (other : p ≠ C)
    (entry : turn.attempted.tree.get? p = some (.file content)) :
    (run s d limits packages w).1.tree.get? p = some (.file content) := by
  refine layout.to_end member (fun t => t.get? p = some (.file content)) entry ?_ ?_
  · intro package w' there before
    have kept := (Item.writeOnce s package w' there.find_store (.refl _ _) fun _ _ => Iff.rfl).kept
    rw [Item.attempt_tree]
    exact kept p content trivial before
  · intro t position accepted there before
    exact (FileTree.replaceFile_files fun _ goes => other (there.place_eq goes)).mpr before

theorem Desk.Layout.evolves_to_end (layout : d.Layout w.tree S C) {turn : Turn σ}
    (member : turn ∈ turns s d limits packages w) :
    turn.attempted.tree.Evolves (Touched S C) (run s d limits packages w).1.tree :=
  layout.to_end member (turn.attempted.tree.Evolves (Touched S C)) (.refl _ _)
    (fun package _ there before => before.trans (there.attempt_evolves s package))
    fun _ _ _ there before => before.trans (there.save_evolves _ _)

end Records

/-! ## A run that fails -/

section Run

variable {σ : Type} (s : Services σ) (d : Desk) (limits : Limits) (packages : List String)
variable (w : Progress σ)

/-- How a run stops that fails. -/
structure Stops (e : RunError) : Prop where
  /-- The save that fails is the last thing it does. -/
  last : ∃ made save error, saves s d limits packages w = made ++ [save] ∧
    (∀ x ∈ made, x.result = .ok ()) ∧ save.result = .error error ∧
    (run s d limits packages w).1.tree = save.after
  /-- The items that it has attempted are those from the checkpoint on. -/
  items : (turns s d limits packages w).map (fun turn => (turn.package, turn.position)) =
    (packages.zipIdx.drop (told d w.tree)).take (turns s d limits packages w).length
  /-- If it names a position, then the save is that of the last item, behind which it lies. -/
  item : ∀ position, e = .saveFailed position →
    saves s d limits packages w = (turns s d limits packages w).map Turn.save ∧
      turns s d limits packages w ≠ [] ∧
      position = told d w.tree + (turns s d limits packages w).length
  /-- If not, then all items of the run were attempted, and the save is the one behind them all. -/
  reset : e = .resetFailed →
    (turns s d limits packages w).length =
        windowEnd packages.length (told d w.tree) limits.batchSize - told d w.tree ∧
      ∃ save, saves s d limits packages w =
        (turns s d limits packages w).map Turn.save ++ [save] ∧ save.position = 0

/-- What a run leaves, whichever of its saves fail. -/
structure LosesNothing (S C : Place) : Prop where
  /-- The checkpoint tells what was saved last, or what it told before if nothing was. -/
  told : told d (run s d limits packages w).1.tree =
    lastMade (Batch.told d w.tree) (saves s d limits packages w)
  /-- A checkpoint that could be read, and not through a link in its place, has all of its content
  then. -/
  content : (∀ save ∈ saves s d limits packages w, save.isMade = false) →
    (∀ target, w.tree.get? C ≠ some (.link target)) → ∀ content,
    w.tree.read d.directory d.checkpoint = .ok content →
    (run s d limits packages w).1.tree.read d.directory d.checkpoint = .ok content
  /-- It is not past an item that was not attempted. -/
  attempted : ∀ i, Batch.told d w.tree ≤ i → i < Batch.told d (run s d limits packages w).1.tree →
    ∃ turn ∈ turns s d limits packages w, turn.position = i
  /-- The next run goes on from there. -/
  onward : ∀ {τ : Type} (s' : Services τ) (limits' : Limits) (w' : Progress τ),
    w'.tree = (run s d limits packages w).1.tree →
    (turns s' d limits' packages w').map (·.position) =
      List.range' (Batch.told d (run s d limits packages w).1.tree)
        (turns s' d limits' packages w').length
  /-- What was recorded stays as it is, unless the checkpoint lies there. -/
  kept : ∀ turn ∈ turns s d limits packages w, ∀ record symbols,
    turn.outcome = .recorded record symbols →
    ∃ content, turn.attempted.tree.get? (S ++ [record]) = some (.file content) ∧
      (S ++ [record] ≠ C →
        (run s d limits packages w).1.tree.get? (S ++ [record]) = some (.file content))
  /-- It is known to any run that comes later, to whose index the version is the same. -/
  known : ∀ turn ∈ turns s d limits packages w, ∀ record symbols,
    turn.outcome = .recorded record symbols →
    ∀ {τ : Type} (s' : Services τ) (limits' : Limits) (w' : Progress τ),
    (run s d limits packages w).1.tree.Evolves (Touched S C) w'.tree →
    ∀ turn' ∈ turns s' d limits' packages w', turn'.package = turn.package →
    (s'.resolve turn'.package turn'.before.outside).1 =
      (s.resolve turn.package turn.before.outside).1 →
    ∃ token, turn'.outcome = .known token ∧ record = recordName turn.package token

variable {s d limits packages w}

theorem stops_of_error {e : RunError} (failed : (run s d limits packages w).2 = .error e) :
    Stops s d limits packages w e := by
  rcases loop_of_error failed with
    ⟨looped, none⟩ | ⟨w', r, error, looped, through, reset, unsaved, left, rfl⟩
  · obtain ⟨made, turn, split, saved, ⟨error, unsaved⟩, rfl, left⟩ :=
      (course_of_loop looped).of_error rfl
    have left : (run s d limits packages w).1 = turn.after := left
    have all : saves s d limits packages w = (turns s d limits packages w).map Turn.save := by
      rw [saves, none, Option.toList_none, List.append_nil]
    constructor
    case last =>
      refine ⟨made.map Turn.save, turn.save, error, ?_, List.forall_mem_map.mpr saved, unsaved, ?_⟩
      · rw [all, split, List.map_append]
        rfl
      · rw [left]
        rfl
    case items => exact turns_items s d limits packages w
    case item =>
      intro position named
      cases named
      have next := nextAfter_turns s d limits packages w
      rw [split, nextAfter, List.getLast?_concat, startPosition_fst, ← split] at next
      exact ⟨all, by simp [split], next⟩
    case reset =>
      intro named
      cases named
  · have all : saves s d limits packages w =
        (turns s d limits packages w).map Turn.save ++ [resetFrom s d w'] := by
      rw [saves, reset, Option.toList_some]
    have inTime := inTime_of_through looped through
    constructor
    case last =>
      exact ⟨_, _, error, all, List.forall_mem_map.mpr ((course_of_loop looped).of_ok rfl).1,
        unsaved, left⟩
    case items => exact turns_items s d limits packages w
    case item =>
      intro position named
      cases named
    case reset => exact fun _ => ⟨all_of_inTime looped inTime, _, all, rfl⟩

theorem losesNothing {S C : Place} (small : packages.length < Text.counterBound)
    (layout : d.Layout w.tree S C)
    (leaves : ∀ save ∈ saves s d limits packages w, save.LeavesTold d) :
    LosesNothing s d limits packages w S C := by
  have tells := told_run small layout leaves
  constructor
  case told => exact tells
  case content => exact fun unmade plain content read => read_run layout unmade plain read
  case attempted =>
    intro i onward passed
    rw [tells] at passed
    exact exists_turn_of_lt_lastMade onward passed
  case onward =>
    intro τ s' limits' w' same
    rw [← same, ← startPosition_fst]
    exact turns_positions s' d limits' packages w'
  case kept =>
    intro turn member record symbols recorded
    obtain ⟨_, _, _, content, entry⟩ := layout.of_recorded_turn member recorded
    exact ⟨content, entry, fun other => layout.record_kept member other entry⟩
  case known =>
    intro turn member record symbols recorded τ s' limits' w' evolution turn' member' package same
    obtain ⟨safe, ⟨version, resolved, rfl⟩, unlocked, content, entry⟩ :=
      layout.of_recorded_turn member recorded
    -- the record is still a file when its package comes up again
    have there := (layout.later (layout.evolves_run s limits packages)).later evolution
    have before := (there.evolves_turns s' limits' packages).1 turn' member'
    have since := (layout.evolves_to_end member).trans (evolution.trans before)
    obtain ⟨content', entry'⟩ := since.file entry
    refine ⟨versionToken version, ?_, rfl⟩
    rw [eq_takeTurn_of_mem_turns member', takeTurn_outcome]
    rw [resolved] at same
    rw [← package] at safe entry'
    exact (there.later before).known_of_file safe (since.unlocked S unlocked) same entry'

/-- A run fails exactly if one of its saves does, and it stops there. On a desk that keeps things
apart, where a save that fails does not change what the checkpoint tells, nothing is lost by it. -/
theorem failed_saves (s : Services σ) (d : Desk) (limits : Limits) (packages : List String)
    (w : Progress σ) :
    ((∃ e, (run s d limits packages w).2 = .error e) ↔
      ∃ save ∈ saves s d limits packages w, ∃ e, save.result = .error e) ∧
    (∀ e, (run s d limits packages w).2 = .error e → Stops s d limits packages w e) ∧
    ∀ S C, packages.length < Text.counterBound → d.Layout w.tree S C →
      (∀ save ∈ saves s d limits packages w, save.LeavesTold d) →
      LosesNothing s d limits packages w S C :=
  ⟨run_error_iff, fun _ failed => stops_of_error failed,
    fun _ _ small layout leaves => losesNothing small layout leaves⟩

end Run

/-- Services that know no package, and a device that takes one file and no more. -/
def oneFile : Services Bool where
  now o := (0, o)
  resolve _ o := (.answer none, o)
  fetch _ _ area o := (.answer [], area, o)
  unpack _ area o := (.answer (.ok ()), area, o)
  accepts o := (o, false)

theorem failed_saves_of_second_item :
    (run oneFile sampleDesk ⟨3, 1⟩ ["a", "b", "c"] ⟨sampleTree, true, []⟩).2 =
        .error (.saveFailed 2) ∧
      Stops oneFile sampleDesk ⟨3, 1⟩ ["a", "b", "c"] ⟨sampleTree, true, []⟩ (.saveFailed 2) ∧
      ∃ C, LosesNothing oneFile sampleDesk ⟨3, 1⟩ ["a", "b", "c"] ⟨sampleTree, true, []⟩ ["db"]
        C := by
  have failed : (run oneFile sampleDesk ⟨3, 1⟩ ["a", "b", "c"] ⟨sampleTree, true, []⟩).2 =
      .error (.saveFailed 2) := by cbv
  obtain ⟨C, layout⟩ : ∃ C, sampleDesk.Layout sampleTree ["db"] C :=
    Desk.Layout.exists_of_noLinks noLinks_sampleTree (by cbv)
  have leaves : ∀ save ∈ saves oneFile sampleDesk ⟨3, 1⟩ ["a", "b", "c"] ⟨sampleTree, true, []⟩,
      save.LeavesTold sampleDesk := leavesTold_of_all (by cbv)
  obtain ⟨_, stops, keeps⟩ :=
    failed_saves oneFile sampleDesk ⟨3, 1⟩ ["a", "b", "c"] ⟨sampleTree, true, []⟩
  exact ⟨failed, stops _ failed, C, keeps ["db"] C (by decide) layout leaves⟩

/-- A checkpoint that gives way on its own path: the item's is saved in the place of the link, the
one behind the list is not saved any more, and what is told is neither. -/
theorem not_losesNothing_of_link :
    (run noServices linkedDesk ⟨1, 1⟩ ["a"] ⟨linkedTree, (), []⟩).2 = .error .resetFailed ∧
      (∀ save ∈ saves noServices linkedDesk ⟨1, 1⟩ ["a"] ⟨linkedTree, (), []⟩,
        save.LeavesTold linkedDesk) ∧
      lastMade (told linkedDesk linkedTree)
        (saves noServices linkedDesk ⟨1, 1⟩ ["a"] ⟨linkedTree, (), []⟩) = 1 ∧
      told linkedDesk (run noServices linkedDesk ⟨1, 1⟩ ["a"] ⟨linkedTree, (), []⟩).1.tree = 0 :=
  ⟨by cbv, leavesTold_of_all (by cbv), by cbv, by cbv⟩

end ApiInventory.Batch

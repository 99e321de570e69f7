import ApiInventory.Batch.Status
import ApiInventory.Proofs.Batch.Resumption

/-!
# What a status says of the next run

A status is made from the list and the checkpoint alone. A run that nothing disturbs (`Undisturbed`)
does what the status says: it starts there, attempts what is left or as much of it as a batch holds,
and completes the pass exactly if a batch holds all that is left (`run_predicted`). Both clamp the
position to the list, each in its own way, so this is so for checkpoints far past the end as well.
-/

namespace ApiInventory.Batch

open Files (FileTree)

variable {σ : Type}

section Loop

variable {s : Services σ} {d : Desk} {deadline : Nat} {items : List (String × Nat)} {r : Reached}
variable {w : Progress σ} {turns : List (Turn σ)} {out : Progress σ × Except RunError Reached}

/-- A loop in which every checkpoint is saved comes to its end. -/
theorem Course.exists_reached (h : Course s d deadline items r w turns out)
    (saved : ∀ turn ∈ turns, turn.saved = .ok ()) : ∃ r', out.2 = .ok r' := by
  induction h with
  | through | late => exact ⟨_, rfl⟩
  | failed _ failed =>
      rw [saved _ (List.mem_singleton.mpr rfl)] at failed
      cases failed
  | turn _ _ _ ih => exact ih fun turn member => saved turn (List.mem_cons_of_mem _ member)

/-- A loop that ends in time has taken all items. -/
theorem Course.takes_all (h : Course s d deadline items r w turns out) {r' : Reached}
    (done : out.2 = .ok r') (inTime : r'.timeLimited = false) : turns.length = items.length := by
  induction h with
  | through => rfl
  | late =>
      cases done
      cases inTime
  | failed => cases done
  | turn _ _ _ ih => rw [List.length_cons, List.length_cons, ih done]

/-- A loop ends in time if the clock never shows the deadline. -/
theorem Course.inTime (h : Course s d deadline items r w turns out)
    (early : ∀ o, (s.now o).1 < deadline) {r' : Reached} (done : out.2 = .ok r') :
    r'.timeLimited = r.timeLimited := by
  induction h with
  | through =>
      cases done
      rfl
  | late late => exact absurd (early _) (Nat.not_lt.mpr late)
  | failed => cases done
  | turn _ _ _ ih => exact ih done

end Loop

section Run

variable (s : Services σ) (d : Desk) (limits : Limits) (packages : List String) (w : Progress σ)

/-- The loop of a run, from where the checkpoint tells it to start. -/
def loop : Progress σ × Except RunError Reached :=
  attemptAll s d limits.deadline (window packages (startPosition d w).1 limits.batchSize)
    ⟨.zero, (startPosition d w).1, false⟩ (startPosition d w).2

theorem loop_course :
    Course s d limits.deadline (window packages (startPosition d w).1 limits.batchSize)
      ⟨.zero, (startPosition d w).1, false⟩ (startPosition d w).2 (turns s d limits packages w)
      (loop s d limits packages w) :=
  run_course s d limits packages w

theorem run_eq :
    run s d limits packages w =
      match loop s d limits packages w with
      | (w', .error e) => (w', .error e)
      | (w', .ok r) => finish s d packages.length (startPosition d w).1 r w' := rfl

/-- A run whose checkpoints are all saved, the one at the end of the list included, and whose
deadline does not come. -/
structure Undisturbed : Prop where
  saved : ∀ turn ∈ turns s d limits packages w, turn.saved = .ok ()
  inTime : ∀ w' r, loop s d limits packages w = (w', .ok r) → r.timeLimited = false
  reset : ∀ w' r, loop s d limits packages w = (w', .ok r) → packages.length ≤ r.next →
    (saveCheckpoint s d 0 w').2 = .ok ()

/-- A run does what a status has said: `turns` are the items that it attempts, and `batchSize` is
the size of its batch. -/
structure Status.Predicts (status : Status) (batchSize : Nat) (turns : List (Turn σ))
    (summary : Summary) : Prop where
  start : summary.start = status.checkpoint
  total : summary.total = status.total
  attempted : summary.tally.attempted = min (max batchSize 1) status.remaining
  counted : turns.length = summary.tally.attempted
  first : turns.head?.map (·.package) = status.nextPackage
  nothing : status.nextPackage = none ↔ status.remaining = 0
  idle : status.remaining = 0 → turns = [] ∧ summary.passCompleted = true
  completes : summary.passCompleted = true ↔ status.remaining ≤ max batchSize 1

variable {s d limits packages w}

theorem Undisturbed.exists_summary (undisturbed : Undisturbed s d limits packages w) :
    ∃ summary, (run s d limits packages w).2 = .ok summary ∧
      (turns s d limits packages w).length =
        (window packages (startPosition d w).1 limits.batchSize).length := by
  have course := loop_course s d limits packages w
  obtain ⟨r, done⟩ := course.exists_reached undisturbed.saved
  obtain ⟨w', ends⟩ : ∃ w', loop s d limits packages w = (w', .ok r) := ⟨_, Prod.ext rfl done⟩
  have all := course.takes_all done (undisturbed.inTime w' r ends)
  rw [run_eq, ends]
  dsimp only
  by_cases inside : r.next < packages.length
  · rw [finish_inside inside]
    exact ⟨_, rfl, all⟩
  · have through := Nat.le_of_not_lt inside
    have reset := undisturbed.reset w' r ends through
    rw [(finish_through s d (startPosition d w).1 w' through).2.1 reset]
    exact ⟨_, rfl, all⟩

/-- The first item of a run is the package where it starts. -/
theorem head?_turns (some : turns s d limits packages w ≠ []) :
    (turns s d limits packages w).head?.map (·.package) = packages[told d w.tree]? := by
  have positions := turns_positions s d limits packages w
  obtain ⟨turn, rest, split⟩ := List.exists_cons_of_ne_nil some
  have here := getElem?_of_mem_turns (split ▸ List.mem_cons_self)
  rw [split, List.map_cons, List.length_cons, List.range'_succ, startPosition_fst] at positions
  rw [(List.cons.inj positions).1] at here
  rw [split, List.head?_cons, Option.map_some, here]

/-- A run that nothing disturbs comes back, and does what a status has said before it. -/
theorem run_predicted (undisturbed : Undisturbed s d limits packages w) :
    ∃ summary, (run s d limits packages w).2 = .ok summary ∧
      (Status.ofList packages (told d w.tree)).Predicts limits.batchSize
        (turns s d limits packages w) summary := by
  obtain ⟨summary, back, all⟩ := undisturbed.exists_summary
  obtain ⟨total, start, attempted, _, ending⟩ := run_ok back
  rw [length_window, windowEnd] at all
  rw [start, nextAfter_turns] at ending
  rw [startPosition_fst] at all start ending
  have idle : packages.length ≤ told d w.tree → turns s d limits packages w = [] := by
    intro past
    apply List.eq_nil_of_length_eq_zero
    omega
  have through : summary.passCompleted = true ↔
      packages.length ≤ told d w.tree + (turns s d limits packages w).length := by
    rcases ending with ⟨within, completed, _⟩ | ⟨past, completed, _⟩
    · rw [completed]
      exact iff_of_false Bool.false_ne_true (Nat.not_le.mpr within)
    · exact iff_of_true completed past
  refine ⟨summary, back, ?_⟩
  constructor
  case start => exact start
  case total => exact total
  case attempted =>
    show _ = min _ (packages.length - told d w.tree)
    omega
  case counted => exact attempted.symm
  case first =>
    show _ = packages[told d w.tree]?
    by_cases past : packages.length ≤ told d w.tree
    · rw [idle past, List.getElem?_eq_none past]
      rfl
    · apply head?_turns
      apply List.ne_nil_of_length_pos
      omega
  case nothing =>
    show packages[told d w.tree]? = none ↔ packages.length - told d w.tree = 0
    rw [List.getElem?_eq_none_iff]
    omega
  case idle =>
    intro nothing
    have past : packages.length ≤ told d w.tree := Nat.le_of_sub_eq_zero nothing
    exact ⟨idle past, through.mpr (by omega)⟩
  case completes =>
    show _ ↔ packages.length - told d w.tree ≤ _
    rw [through]
    omega

end Run

end ApiInventory.Batch

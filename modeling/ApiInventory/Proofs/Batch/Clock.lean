import ApiInventory.Proofs.Batch.Calls
import ApiInventory.Proofs.Batch.Prediction

/-!
# When the clock is read

A run looks at the clock at the boundaries between its items: before the first, and after each with
the checkpoint moved on. That it looks nowhere else is seen with a clock that keeps an account of
what it has shown (`Services.clocked`). Such an account holds one time for each item that was
started, and one more if the last was too late (`run_clocked`).

So a run, too, does the same in an outside that is seen through another (`run_seen`), if the clock
shows the same in both.
-/

namespace ApiInventory.Batch

variable {σ τ : Type}

/-- The same services, with a clock that notes each time it shows behind the ones before. -/
def Services.clocked (s : Services σ) : Services (σ × List Nat) where
  now o := ((s.now o.1).1, (s.now o.1).2, o.2 ++ [(s.now o.1).1])
  resolve package o := ((s.resolve package o.1).1, (s.resolve package o.1).2, o.2)
  fetch package version area o := ((s.fetch package version area o.1).1,
    (s.fetch package version area o.1).2.1, (s.fetch package version area o.1).2.2, o.2)
  unpack archive area o := ((s.unpack archive area o.1).1, (s.unpack archive area o.1).2.1,
    (s.unpack archive area o.1).2.2, o.2)
  accepts o := ((s.accepts o.1).1, (s.accepts o.1).2, o.2)

/-- While the clock is not read its account stays as it is. -/
theorem Services.mirrors_clocked (s : Services σ) (shown : List Nat) :
    s.Mirrors (fun o => (o, shown)) s.clocked :=
  ⟨fun _ _ => rfl, fun _ _ _ _ => rfl, fun _ _ _ => rfl, fun _ => rfl⟩

/-- A turn as it is taken in an outside that is seen through another. -/
def Turn.seen (see : τ → σ) (turn : Turn τ) : Turn σ :=
  { package := turn.package, position := turn.position, before := turn.before.seen see,
    outcome := turn.outcome, attempted := turn.attempted.seen see, after := turn.after.seen see,
    saved := turn.saved }

section Seen

variable {see : τ → σ} {t : Services τ} {s : Services σ} (mirrors : t.Mirrors see s) (d : Desk)
include mirrors

theorem saveCheckpoint_seen (position : Nat) (w : Progress τ) :
    saveCheckpoint s d position (w.seen see) =
      Prod.map (Progress.seen see) id (saveCheckpoint t d position w) := by
  have e : s.accepts (w.seen see).outside = Prod.map id see (t.accepts w.outside) :=
    mirrors.accepts w.outside
  simp only [saveCheckpoint, e]
  rfl

theorem takeTurn_seen (package : String) (position : Nat) (w : Progress τ) :
    takeTurn s d package position (w.seen see) = (takeTurn t d package position w).seen see := by
  unfold takeTurn
  rw [Item.attempt_seen mirrors]
  rcases Item.attempt t d package w with ⟨attempted, outcome⟩
  have saved := saveCheckpoint_seen mirrors d (position + 1)
    (attempted.note (.finished package outcome))
  have noted : (attempted.seen see).note (.finished package outcome) =
      (attempted.note (.finished package outcome)).seen see := rfl
  simp only [Prod.map, id, noted, saved]
  rfl

theorem finish_seen (total start : Nat) (r : Reached) (w : Progress τ) :
    finish s d total start r (w.seen see) =
      Prod.map (Progress.seen see) id (finish t d total start r w) := by
  unfold finish
  split
  · rw [saveCheckpoint_seen mirrors]
    rcases saveCheckpoint t d 0 w with ⟨w', e | ⟨⟩⟩ <;> rfl
  · rfl

end Seen

/-! ## Boundaries -/

/-- How things stand with an account of what the clock has shown. -/
def Progress.having (w : Progress σ) (shown : List Nat) : Progress (σ × List Nat) :=
  w.seen fun o => (o, shown)

/-- How things stand at the boundaries of some turns: before the first and after each. -/
def boundaries (start : Progress σ) (turns : List (Turn σ)) : List (Progress σ) :=
  start :: turns.map (·.after)

/-- What the clock shows at the boundaries, if it is read there. -/
def clockTimes (s : Services σ) (start : Progress σ) (turns : List (Turn σ)) : List Nat :=
  (boundaries start turns).map fun w => (s.now w.outside).1

/-- Whether it was too late for an item of a loop. -/
def endsLate : Except RunError Reached → Bool
  | .ok r => r.timeLimited
  | .error _ => false

section Course

variable {s : Services σ} {d : Desk} {deadline : Nat} {items : List (String × Nat)} {r : Reached}
variable {w : Progress σ} {turns : List (Turn σ)} {out : Progress σ × Except RunError Reached}

/-- Each turn starts at its boundary, once the clock has been read there. -/
theorem Course.before_eq (h : Course s d deadline items r w turns out) :
    turns.map (·.before) = ((boundaries w turns).take turns.length).map (Progress.timed s) := by
  induction h with
  | through | late | failed => rfl
  | turn _ _ _ ih => simp [ih, boundaries]

/-- No turn starts at the deadline or after it. -/
theorem Course.times_lt (h : Course s d deadline items r w turns out) :
    ∀ time ∈ (clockTimes s w turns).take turns.length, time < deadline := by
  induction h with
  | through | late => simp
  | failed early _ => simpa [clockTimes, boundaries] using early
  | turn early _ _ ih =>
      simp only [clockTimes, boundaries, List.map_cons, List.length_cons, List.take_succ_cons,
        List.forall_mem_cons]
      exact ⟨early, ih⟩

/-- If it was too late for an item, then the clock shows that after the last turn, and items are
left. -/
theorem Course.late_of_endsLate (h : Course s d deadline items r w turns out)
    (open' : r.timeLimited = false) (late : endsLate out.2 = true) :
    turns.length < items.length ∧
      ∃ time, (clockTimes s w turns)[turns.length]? = some time ∧ deadline ≤ time := by
  induction h with
  | through => simp [endsLate, open'] at late
  | late passed => exact ⟨by simp, _, rfl, passed⟩
  | failed => simp [endsLate] at late
  | turn _ _ _ ih =>
      obtain ⟨left, time, shown, passed⟩ := ih open' late
      exact ⟨by simpa using left, time, by simpa [clockTimes, boundaries] using shown, passed⟩

theorem attemptAll_of_late {package : String} {position : Nat} {rest : List (String × Nat)}
    (late : deadline ≤ (s.now w.outside).1) :
    attemptAll s d deadline ((package, position) :: rest) r w =
      ((w.timed s).note (.outOfTime package position), .ok { r with timeLimited := true }) := by
  rw [attemptAll]
  exact if_pos late

theorem attemptAll_of_early {package : String} {position : Nat} {rest : List (String × Nat)}
    (early : (s.now w.outside).1 < deadline) :
    attemptAll s d deadline ((package, position) :: rest) r w =
      match (takeTurn s d package position (w.timed s)).saved with
      | .error _ =>
        ((takeTurn s d package position (w.timed s)).after, .error (.saveFailed (position + 1)))
      | .ok () =>
        attemptAll s d deadline rest
          { r with
            tally := r.tally.count (takeTurn s d package position (w.timed s)).outcome
            next := position + 1 }
          (takeTurn s d package position (w.timed s)).after := by
  rw [attemptAll]
  exact if_neg (Nat.not_le.mpr early)

/-- A turn leaves the account with the one time that was noted before it. -/
theorem takeTurn_clocked (s : Services σ) (d : Desk) (package : String) (position : Nat)
    (w : Progress σ) (shown : List Nat) :
    takeTurn s.clocked d package position ((w.having shown).timed s.clocked) =
      (takeTurn s d package position (w.timed s)).seen fun o =>
        (o, shown ++ [(s.now w.outside).1]) :=
  takeTurn_seen (s.mirrors_clocked _) d package position (w.timed s)

/-- A loop goes on as it does without an account, which holds a time for each turn, and one more if
it was too late for the next. -/
theorem Course.clocked (h : Course s d deadline items r w turns out)
    (open' : r.timeLimited = false) (shown : List Nat) :
    attemptAll s.clocked d deadline items r (w.having shown) =
      (out.1.having
        (shown ++ (clockTimes s w turns).take (turns.length + (endsLate out.2).toNat)), out.2) := by
  induction h generalizing shown with
  | through => simp [attemptAll, endsLate, open']
  | late passed => exact attemptAll_of_late (s := s.clocked) passed
  | @failed package position rest r w e early failed =>
      rw [attemptAll_of_early (s := s.clocked) early, takeTurn_clocked]
      simp only [Turn.seen, failed]
      rfl
  | @turn package position rest r w turns out early saved onward ih =>
      rw [attemptAll_of_early (s := s.clocked) early, takeTurn_clocked]
      simp only [Turn.seen, saved]
      refine (ih open' _).trans ?_
      simp [clockTimes, boundaries, Nat.succ_add]

end Course

/-! ## Whole runs -/

theorem startPosition_seen (see : τ → σ) (d : Desk) (w : Progress τ) :
    startPosition d (w.seen see) = ((startPosition d w).1, (startPosition d w).2.seen see) := by
  have tree : (w.seen see).tree = w.tree := rfl
  unfold startPosition
  rw [tree]
  split <;> rfl

/-- A run does not notice that there is an account of its clock. It reads the clock once for each
turn, and once more if it was too late for another. -/
theorem run_clocked (s : Services σ) (d : Desk) (limits : Limits) (packages : List String)
    (w : Progress σ) :
    run s.clocked d limits packages (w.having []) =
      ((run s d limits packages w).1.having
        ((clockTimes s (startPosition d w).2 (turns s d limits packages w)).take
          ((turns s d limits packages w).length +
            (endsLate (loop s d limits packages w).2).toNat)),
        (run s d limits packages w).2) := by
  have clocked := (loop_course s d limits packages w).clocked rfl []
  rw [List.nil_append] at clocked
  generalize (clockTimes s (startPosition d w).2 (turns s d limits packages w)).take _ = shown
    at clocked ⊢
  have start : startPosition d (w.having []) =
      ((startPosition d w).1, (startPosition d w).2.having []) := startPosition_seen _ d w
  have looped : loop s.clocked d limits packages (w.having []) =
      ((loop s d limits packages w).1.having shown, (loop s d limits packages w).2) := by
    rw [loop, start]
    exact clocked
  rw [run_eq s, run_eq s.clocked, looped, start]
  rcases loop s d limits packages w with ⟨w', e | r⟩
  · rfl
  · exact finish_seen (s.mirrors_clocked shown) d packages.length (startPosition d w).1 r w'

section Seen

variable {see : τ → σ} {t : Services τ} {s : Services σ} (mirrors : t.Mirrors see s) (d : Desk)
variable (clock : ∀ o, s.now (see o) = Prod.map id see (t.now o))
include mirrors clock

theorem attemptAll_seen (deadline : Nat) (items : List (String × Nat)) (r : Reached)
    (w : Progress τ) :
    attemptAll s d deadline items r (w.seen see) =
      Prod.map (Progress.seen see) id (attemptAll t d deadline items r w) := by
  induction items generalizing r w with
  | nil => rfl
  | cons item rest ih =>
      obtain ⟨package, position⟩ := item
      have shown : s.now (w.seen see).outside = Prod.map id see (t.now w.outside) :=
        clock w.outside
      have timed : (w.seen see).timed s = (w.timed t).seen see := by
        rw [Progress.timed, shown]
        rfl
      by_cases late : deadline ≤ (t.now w.outside).1
      · have late' : deadline ≤ (s.now (w.seen see).outside).1 := by rwa [shown]
        rw [attemptAll_of_late late, attemptAll_of_late late', timed]
        rfl
      · have early := Nat.lt_of_not_le late
        have early' : (s.now (w.seen see).outside).1 < deadline := by rwa [shown]
        rw [attemptAll_of_early early, attemptAll_of_early early', timed, takeTurn_seen mirrors]
        rcases saved : (takeTurn t d package position (w.timed t)).saved with e | ⟨⟩
        · simp only [Turn.seen, saved]
          rfl
        · simp only [Turn.seen, saved]
          exact ih _ _

/-- A run does the same in an outside that is seen through another, if the clock is seen there
too. -/
theorem run_seen (limits : Limits) (packages : List String) (w : Progress τ) :
    run s d limits packages (w.seen see) =
      Prod.map (Progress.seen see) id (run t d limits packages w) := by
  have looped : loop s d limits packages (w.seen see) =
      Prod.map (Progress.seen see) id (loop t d limits packages w) := by
    rw [loop, startPosition_seen]
    exact attemptAll_seen mirrors d clock _ _ _ _
  rw [run_eq s, run_eq t, looped, startPosition_seen]
  rcases loop t d limits packages w with ⟨w', e | r⟩
  · rfl
  · exact finish_seen mirrors d packages.length (startPosition d w).1 r w'

end Seen

end ApiInventory.Batch

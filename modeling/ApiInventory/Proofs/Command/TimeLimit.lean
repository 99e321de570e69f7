import ApiInventory.Proofs.Command.Runs

/-!
# Time limits

A time limit counts if the time that it leads to can be told in the seconds of a clock, and then
the run performs its batch. Otherwise the run is given up before anything has happened, though
the command line and the environment take the limit (`crash_of_largest_limit`).

Among the limits that count, more time never means fewer items. The clock is asked before each
item, and a run with more time goes on at least where one with less does, so that the items of the
shorter run are the first of the longer one (`turnsOf_isPrefix`). Nothing else in a run depends
on its limit (`SameButLimit`).
-/

namespace ApiInventory.Batch

/-- With a later deadline the same turns are taken, and maybe more. -/
theorem turnsOf_isPrefix {σ : Type} (s : Services σ) (d : Desk) {deadline later : Nat}
    (le : deadline ≤ later) (items : List (String × Nat)) (w : Progress σ) :
    turnsOf s d deadline items w <+: turnsOf s d later items w := by
  induction items generalizing w with
  | nil => exact List.prefix_rfl
  | cons item rest ih =>
      obtain ⟨package, position⟩ := item
      by_cases late : deadline ≤ (s.now w.outside).1
      · simp only [turnsOf, if_pos late]
        exact List.nil_prefix
      · have early : ¬later ≤ (s.now w.outside).1 := fun h => late (Nat.le_trans le h)
        simp only [turnsOf, if_neg late, if_neg early, List.prefix_cons_inj]
        split
        · exact List.prefix_rfl
        · exact ih _

end ApiInventory.Batch

namespace ApiInventory.Command

open Files (FileTree)

variable {σ : Type}

/-- Two runs that are the same but for their time limit, be it given by an option or by the
environment. -/
structure SameButLimit (x x' : Surroundings σ) (o o' : RunOptions) : Prop where
  surroundings : x' = { x with environment := x'.environment }
  environment : ∀ name, name ≠ Settings.Variable.timeLimit.name →
    x'.environment name = x.environment name
  options : o' = { o with timeLimitSecs := o'.timeLimitSecs }

namespace SameButLimit

variable {x x' : Surroundings σ} {o o' : RunOptions}

theorem settings (same : SameButLimit x x' o o') :
    x'.settings = { x.settings with timeLimitSecs := x'.settings.timeLimitSecs } := by
  have batch := same.environment Settings.Variable.batchSize.name (by decide)
  have resolve := same.environment Settings.Variable.resolveTimeout.name (by decide)
  have download := same.environment Settings.Variable.downloadTimeout.name (by decide)
  have url := same.environment Settings.Variable.indexUrl.name (by decide)
  simp only [Surroundings.settings, Settings.ofEnvironment, batch, resolve, download, url]

theorem services_eq (same : SameButLimit x x' o o') : o'.services x' = o.services x := by
  have url : x'.settings.indexUrl = x.settings.indexUrl := by rw [same.settings]
  obtain ⟨surroundings, -, options⟩ := same
  generalize x'.environment = environment at surroundings
  generalize o'.timeLimitSecs = limit at options
  subst surroundings options
  simp only [RunOptions.services, RunOptions.effectiveIndexUrl, url]

theorem desk_eq (same : SameButLimit x x' o o') : o'.desk x' = o.desk x := by
  have temporary := same.environment "TMPDIR" (by decide)
  obtain ⟨surroundings, -, options⟩ := same
  generalize x'.environment = environment at surroundings temporary
  generalize o'.timeLimitSecs = limit at options
  subst surroundings options
  simp only [RunOptions.desk, temporaryDirectory, temporary]

theorem directory_eq (same : SameButLimit x x' o o') : x'.directory = x.directory := by
  rw [same.surroundings]

theorem started_eq (same : SameButLimit x x' o o') : x'.started = x.started := by
  rw [same.surroundings]

theorem begun_eq (same : SameButLimit x x' o o') (t : FileTree) (s : σ) :
    o'.begun x' t s = o.begun x t s := by
  rw [RunOptions.begun, RunOptions.begun, same.desk_eq, same.directory_eq]

theorem batchSize_eq (same : SameButLimit x x' o o') :
    (o'.limits x').batchSize = (o.limits x).batchSize := by
  have option : o'.batchSize = o.batchSize := by rw [same.options]
  have setting : x'.settings.batchSize = x.settings.batchSize := by rw [same.settings]
  show o'.batchSize.getD x'.settings.batchSize = o.batchSize.getD x.settings.batchSize
  rw [option, setting]

theorem deadline_le (same : SameButLimit x x' o o')
    (le : o.effectiveTimeLimitSecs x.settings ≤ o'.effectiveTimeLimitSecs x'.settings) :
    (o.limits x).deadline ≤ (o'.limits x').deadline := by
  show x.started + _ ≤ x'.started + _
  rw [same.started_eq]
  exact Nat.add_le_add_left (Nat.mul_le_mul_right _ le) _

/-- What the run with less time attempts, the other one attempts as well, and first. -/
theorem turns_isPrefix (same : SameButLimit x x' o o')
    (le : o.effectiveTimeLimitSecs x.settings ≤ o'.effectiveTimeLimitSecs x'.settings)
    (packages : List String) (t : FileTree) (s : σ) :
    o.turns x packages t s <+: o'.turns x' packages t s := by
  unfold RunOptions.turns Batch.turns
  rw [same.services_eq, same.desk_eq, same.begun_eq, same.batchSize_eq]
  exact Batch.turnsOf_isPrefix _ _ (same.deadline_le le) _ _

theorem ready (same : SameButLimit x x' o o') {t : FileTree} {packages : List String}
    (ready : Ready x o t packages) : Ready x' o' t packages := by
  have path : o'.packages = o.packages := by rw [same.options]
  refine ⟨?_, ?_⟩
  · rw [packagesIn?, same.directory_eq, path]
    exact ready.readable
  · rw [same.desk_eq, same.directory_eq]
    exact ready.opened

end SameButLimit

/-- A run with its list and its store performs its batch if its time limit leads to a deadline, and
is given up at once otherwise. The same run with a larger limit is no less ready, and attempts what
this one attempts and then maybe more. -/
theorem time_limits {x : Surroundings σ} {o : RunOptions} {t : FileTree} {packages : List String}
    (ready : Ready x o t packages) (s : σ) :
    (o.HasDeadline x → Performs (o.batch x packages t s) (run x o t s) ∧
      ∀ summary, (o.batch x packages t s).2 = .ok summary →
        summary.tally.attempted = (o.turns x packages t s).length) ∧
    (¬o.HasDeadline x → run x o t s = ⟨.crash "the deadline is out of range", "", t, s⟩) ∧
    ∀ x' o', SameButLimit x x' o o' →
      o.effectiveTimeLimitSecs x.settings ≤ o'.effectiveTimeLimitSecs x'.settings →
      Ready x' o' t packages ∧ o.turns x packages t s <+: o'.turns x' packages t s := by
  refine ⟨fun timed => ⟨run_performs ready timed s, fun summary back => ?_⟩,
    fun untimed => run_crashes ready.readable untimed s,
    fun x' o' same le => ⟨same.ready ready, same.turns_isPrefix le packages t s⟩⟩
  exact (Batch.run_ok back).2.2.1

/-- Without an option a run has the time that the settings give it, and attempts what it attempts
in a second. -/
theorem time_limits_of_listTree :
    Performs ((listOptions "c" none).batch silence ["a", "b"] listTree ())
        (run silence (listOptions "c" none) listTree ()) ∧
      (listOptions "c" (some 1)).turns silence ["a", "b"] listTree () <+:
        (listOptions "c" none).turns silence ["a", "b"] listTree () := by
  obtain ⟨performs, -, -⟩ := time_limits (ready_listTree "c" none) ()
  obtain ⟨-, -, more⟩ := time_limits (ready_listTree "c" (some 1)) ()
  have same : SameButLimit silence silence (listOptions "c" (some 1)) (listOptions "c" none) :=
    ⟨rfl, fun _ _ => rfl, rfl⟩
  exact ⟨(performs (hasDeadline_listOptions "c")).1,
    (more silence (listOptions "c" none) same (by decide)).2⟩

/-- The largest number of seconds that a command line can give is taken, and the run is given up. -/
theorem crash_of_largest_limit :
    (program silence ["run", "--packages", "l", "--output", "d", "--checkpoint", "c",
      "--index-url", "", "--time-limit-secs", "18446744073709551615"] listTree ()).ending =
        .crash "the deadline is out of range" := by
  have invocation : Invocation.ofArguments ["run", "--packages", "l", "--output", "d",
      "--checkpoint", "c", "--index-url", "", "--time-limit-secs", "18446744073709551615"] =
        .ok ⟨false, .run (listOptions "c" (some 18446744073709551615))⟩ := by rfl
  have untimed : ¬(listOptions "c" (some 18446744073709551615)).HasDeadline silence := by
    unfold RunOptions.HasDeadline
    decide
  have readable := (ready_listTree "c" (some 18446744073709551615)).readable
  simp only [program, invocation, execute, run_crashes readable untimed]

end ApiInventory.Command

import ApiInventory.Proofs.Batch.Clock
import ApiInventory.Proofs.Batch.Saves
import ApiInventory.Proofs.Command.Runs
import ApiInventory.Proofs.Files.Replacement
import ApiInventory.Proofs.Index.Fetch
import ApiInventory.Proofs.Json.RoundTrip

/-!
# How a run ends

Three things can make a run fail: a list that is no text, a store that cannot be opened, and a
checkpoint that cannot be saved. What becomes of its items is not among them, and all of it is in
the summary that is printed (`run_endings`).

The first two come before the first item, so that nothing has happened then. That no request has
been sent is said with a web that keeps an account of what it is asked for. A run does not notice
that there is such an account (`run_logged`).
-/

namespace ApiInventory.Command

open Files (FileTree Place Entry)
open Index (Address)

variable {σ τ : Type}

/-! ## An account of requests -/

/-- The same surroundings, with a web that notes each address that it is asked for behind the ones
before. -/
def Surroundings.logged (x : Surroundings σ) : Surroundings (σ × List Address) where
  directory := x.directory
  environment := x.environment
  started := x.started
  now o := ((x.now o.1).1, (x.now o.1).2, o.2)
  web := x.web.logged
  programs name arguments t o :=
    let (exit, t, s) := x.programs name arguments t o.1
    (exit, t, s, o.2)
  accepts o := ((x.accepts o.1).1, (x.accepts o.1).2, o.2)

/-- A report from an outside that is seen through another. -/
def Report.seen (see : τ → σ) (report : Report τ) : Report σ :=
  ⟨report.ending, report.output, report.tree, see report.outside⟩

variable (x : Surroundings σ)

/-- The addresses that a run asks for, in their order. -/
def RunOptions.requests (o : RunOptions) (t : FileTree) (s : σ) : List Address :=
  (run x.logged o t (s, [])).outside.2

theorem resolve_logged (c : Index.Client) (package : String) (o : σ × List Address) :
    c.resolve x.web package o.1 = Prod.map id Prod.fst (c.resolve x.web.logged package o) := by
  obtain ⟨s, log⟩ := o
  simp only [Index.Client.resolve, Index.Client.release?_logged, Prod.map, id]

theorem fetch_logged (c : Index.Client) (package version : String) (t : FileTree)
    (cwd : Place) (directory : String) (o : σ × List Address) :
    c.fetch x.web package version t cwd directory o.1 =
      Prod.map id (Prod.map id Prod.fst)
        (c.fetch x.web.logged package version t cwd directory o) := by
  obtain ⟨s, log⟩ := o
  simp only [Index.Client.fetch, Index.Client.release?_logged]
  cases (Index.Client.release? x.web (c.releaseUrl package (some version)) s).1.bind
      Index.Release.pick? with
  | none => simp only [Prod.map, id]
  | some f => simp only [Index.Client.download_logged, Prod.map, id]

theorem install_logged (i : Index.Installer) (package version : String) (t : FileTree)
    (cwd : Place) (directory : String) (o : σ × List Address) :
    i.fetch x.programs package version t cwd directory o.1 =
      Prod.map id (Prod.map id Prod.fst)
        (i.fetch x.logged.programs package version t cwd directory o) := by
  rcases ran : x.programs i.program (Index.Installer.arguments package version directory) t o.1
    with ⟨_ | succeeded, t', s⟩
  all_goals
    simp only [Index.Installer.fetch, Surroundings.logged, ran]
    rfl

@[simp] theorem settings_logged : x.logged.settings = x.settings := rfl

@[simp] theorem web_logged : x.logged.web = x.web.logged := rfl

/-- The services of a run answer as they do without an account. -/
theorem services_logged (o : RunOptions) :
    (o.services x.logged).Mirrors Prod.fst (o.services x) where
  resolve package s := by
    have seen := resolve_logged x ⟨o.effectiveIndexUrl x.settings⟩ package s
    simp only [RunOptions.services, settings_logged, web_logged, seen, Prod.map, id]
  fetch package version area s := by
    have fetched := fetch_logged x ⟨o.effectiveIndexUrl x.settings⟩ package version area []
      Batch.WorkArea.downloads s
    have installed := install_logged x ⟨o.installer⟩ package version area []
      Batch.WorkArea.downloads s
    simp only [RunOptions.services, settings_logged, web_logged]
    cases o.method with
    | index => simp only [fetched, Prod.map, id]
    | installer => simp only [installed, Prod.map, id]
  unpack _ _ _ := rfl
  accepts _ := rfl

theorem runBatch_logged (o : RunOptions) (packages : List String) (deadline : Nat) (t : FileTree)
    (s : σ × List Address) :
    runBatch x o packages deadline t s.1 =
      (runBatch x.logged o packages deadline t s).seen Prod.fst := by
  have batch := Batch.run_seen (services_logged x o) (o.desk x) (fun _ => rfl)
    ⟨o.effectiveBatchSize x.settings, deadline⟩ packages
    ⟨((o.desk x).store.create t x.directory).tree, s, []⟩
  have desk : o.desk x.logged = o.desk x := rfl
  have settings : x.logged.settings = x.settings := rfl
  have directory : x.logged.directory = x.directory := rfl
  simp only [runBatch, desk, settings, directory]
  cases ((o.desk x).store.create t x.directory).result with
  | error e => rfl
  | ok _ =>
      simp only [Batch.Progress.seen] at batch
      simp only [batch]
      rcases Batch.run (o.services x.logged) (o.desk x) _ packages _ with ⟨w, e | summary⟩ <;> rfl

/-- A run does not notice that its requests are noted. -/
theorem run_logged (o : RunOptions) (t : FileTree) (s : σ × List Address) :
    run x o t s.1 = (run x.logged o t s).seen Prod.fst := by
  have readable : packagesIn? x.logged t o.packages = packagesIn? x t o.packages := rfl
  have started : x.logged.started = x.started := rfl
  have settings : x.logged.settings = x.settings := rfl
  simp only [run, readable, started, settings]
  cases packagesIn? x t o.packages with
  | none => rfl
  | some packages =>
      cases Batch.deadline? x.started (o.effectiveTimeLimitSecs x.settings) with
      | none => rfl
      | some deadline => exact runBatch_logged x o packages deadline t s

/-! ## What a run prints -/

theorem plain_toJson (summary : Batch.Summary) : summary.toJson.Plain := by
  refine .object (by simp) ?_
  simp only [List.forall_mem_map, List.forall_mem_cons]
  refine ⟨.natural _, .natural _, .natural _, .natural _, .natural _, .natural _, .natural _,
    .bool _, .bool _, List.forall_mem_nil _⟩

/-- A summary that is printed is read back as it is. -/
theorem ofText?_printed (summary : Batch.Summary) :
    Json.ofText? (printed summary.toJson) = some summary.toJson :=
  Json.ofText?_pretty (plain_toJson summary) (by simp [Json.Blanks, Json.isSpace])

/-! ## What a run depends on -/

/-- The checkpoints that a run tries to save. -/
def RunOptions.saves (o : RunOptions) (packages : List String) (t : FileTree) (s : σ) :
    List Batch.Save :=
  Batch.saves (o.services x) (o.desk x) (o.limits x) packages (o.begun x t s)

variable {x} {o : RunOptions} {t : FileTree} {packages : List String}

/-- A list is a file that is a text. -/
theorem packagesIn?_eq_some_iff {path : String} :
    packagesIn? x t path = some packages ↔
      ∃ text, t.read x.directory path = .ok (Text.encode text) ∧
        packages = Batch.packageNames text := by
  unfold packagesIn?
  cases t.read x.directory path with
  | error e => simp
  | ok content =>
      simp only [Option.map_eq_some_iff, Text.decode?_eq_some_iff, Except.ok.injEq]
      simp only [eq_comm]

theorem packagesIn?_eq_none_iff {path : String} :
    packagesIn? x t path = none ↔ ∀ text, t.read x.directory path ≠ .ok (Text.encode text) := by
  rw [Option.eq_none_iff_forall_ne_some]
  simp only [ne_eq, packagesIn?_eq_some_iff, not_exists, not_and]
  exact ⟨fun none text read => none _ text read rfl,
    fun none _ text read => absurd read (none text)⟩

/-- Without a list, a run ends before anything has happened. -/
theorem run_of_no_list (none : packagesIn? x t o.packages = none) (s : σ) :
    run x o t s = ⟨unreadableList o.packages, "", t, s⟩ := by
  rw [run, none]

/-- Without a store, it ends before its first item. -/
theorem run_of_no_store {e : Files.FileError} (timed : o.HasDeadline x)
    (readable : packagesIn? x t o.packages = some packages)
    (closed : ((o.desk x).store.create t x.directory).result = .error e) (s : σ) :
    run x o t s = ⟨.failure e.heading, "",
      ((o.desk x).store.create t x.directory).tree, s⟩ := by
  have deadline : Batch.deadline? x.started (o.effectiveTimeLimitSecs x.settings) =
      some (o.limits x).deadline := if_pos timed
  simp only [run, readable, deadline, runBatch, closed]

/-- To open a store takes nothing away, and makes nothing but directories. -/
theorem get?_create (p : Place) :
    ((o.desk x).store.create t x.directory).tree.get? p = t.get? p ∨
      t.get? p = none ∧
        ((o.desk x).store.create t x.directory).tree.get? p = some .directory := by
  have evolution : t.Evolves (fun _ => False) ((o.desk x).store.create t x.directory).tree :=
    FileTree.makeDirectoriesAs_evolves _ t x.directory _ _
  rcases evolution.entry p with same | ⟨⟨⟩, _⟩ | made
  · exact .inl same
  · exact .inr made

/-- A run that has its list and its store succeeds exactly if all checkpoints are saved. -/
theorem code_eq_zero_iff_of_ready (ready : Ready x o t packages) (timed : o.HasDeadline x) (s : σ) :
    (run x o t s).ending.code = 0 ↔ ∀ save ∈ o.saves x packages t s, save.result = .ok () := by
  have performs := run_performs ready timed s
  rw [RunOptions.saves, ← Batch.run_ok_iff]
  rcases performs.ends with ⟨summary, back, success, -⟩ | ⟨e, failed, failure, -⟩
  · exact iff_of_true (by rw [success]; rfl) ⟨summary, back⟩
  · refine iff_of_false (by rw [failure]; simp [Ending.code]) ?_
    rintro ⟨summary, back⟩
    cases failed.symm.trans back

/-- What a run needs in order to succeed. -/
structure Succeeds (x : Surroundings σ) (o : RunOptions) (t : FileTree) (s : σ) (text : String) :
    Prop where
  /-- The list is there, and is a text. -/
  list : t.read x.directory o.packages = .ok (Text.encode text)
  /-- The store can be opened. -/
  store : ((o.desk x).store.create t x.directory).result = .ok ()
  /-- Each checkpoint is saved that is tried. -/
  saved : ∀ save ∈ o.saves x (Batch.packageNames text) t s, save.result = .ok ()

theorem code_eq_zero_iff (timed : o.HasDeadline x) (s : σ) :
    (run x o t s).ending.code = 0 ↔ ∃ text, Succeeds x o t s text := by
  rcases readable : packagesIn? x t o.packages with _ | packages
  · rw [run_of_no_list readable]
    refine iff_of_false Nat.one_ne_zero ?_
    rintro ⟨text, needs⟩
    exact packagesIn?_eq_none_iff.mp readable text needs.list
  · obtain ⟨text, read, rfl⟩ := packagesIn?_eq_some_iff.mp readable
    rcases opened : ((o.desk x).store.create t x.directory).result with e | ⟨⟩
    · rw [run_of_no_store timed readable opened]
      refine iff_of_false Nat.one_ne_zero ?_
      rintro ⟨text, needs⟩
      cases opened.symm.trans needs.store
    · rw [code_eq_zero_iff_of_ready ⟨readable, opened⟩ timed]
      constructor
      · intro saved
        exact ⟨text, read, opened, saved⟩
      · rintro ⟨text', needs⟩
        obtain rfl : text' = text :=
          Text.encode_injective (Except.ok.inj (needs.list.symm.trans read))
        exact needs.saved

/-- A run that does not succeed prints nothing. -/
theorem silent_of_code_ne_zero (timed : o.HasDeadline x) {s : σ}
    (failed : (run x o t s).ending.code ≠ 0) :
    (run x o t s).ending.code = 1 ∧ (run x o t s).output = "" := by
  rcases readable : packagesIn? x t o.packages with _ | packages
  · rw [run_of_no_list readable]
    exact ⟨rfl, rfl⟩
  · rcases opened : ((o.desk x).store.create t x.directory).result with e | ⟨⟩
    · rw [run_of_no_store timed readable opened]
      exact ⟨rfl, rfl⟩
    · have performs := run_performs ⟨readable, opened⟩ timed s
      rcases performs.ends with ⟨_, _, success, _⟩ | ⟨e, _, failure, output⟩
      · rw [success] at failed
        exact absurd rfl failed
      · exact ⟨by rw [failure]; rfl, output⟩

/-- Where the store cannot be opened, a run ends before its first item, with a list or without. -/
theorem run_of_closed_store {e : Files.FileError} (timed : o.HasDeadline x)
    (closed : ((o.desk x).store.create t x.directory).result = .error e) (s : σ) :
    (run x o t s).ending.code = 1 ∧ (run x o t s).outside = s ∧
      ((run x o t s).tree = t ∨
        (run x o t s).tree = ((o.desk x).store.create t x.directory).tree) := by
  rcases readable : packagesIn? x t o.packages with _ | packages
  · rw [run_of_no_list readable]
    exact ⟨rfl, rfl, .inl rfl⟩
  · rw [run_of_no_store timed readable closed]
    exact ⟨rfl, rfl, .inr rfl⟩

/-- **How a run ends.** A run whose time limit leads to a deadline succeeds exactly if its list is a
text that can be read, its store can be opened and each checkpoint is saved that it tries, whatever
its items come to; what it tries is to put positions where the checkpoint is. It prints the summary
of its batch then, a JSON text with the nine members of the summary and nothing else. Otherwise it
prints nothing and fails. Without a list nothing has been asked for and no file or directory is
other than before; without a store nothing has been asked for, and what was there is as it was. -/
theorem run_endings {arguments : List String} {verbose : Bool}
    (accepted : Invocation.ofArguments arguments = .ok ⟨verbose, .run o⟩)
    (timed : o.HasDeadline x) (t : FileTree) (s : σ) :
    let report := program x arguments t s
    (report.ending.code = 0 ↔ ∃ text, Succeeds x o t s text) ∧
    (∀ packages, ∀ save ∈ o.saves x packages t s, save.Made (o.desk x)) ∧
    (∀ text, Succeeds x o t s text → ∃ summary,
      (o.batch x (Batch.packageNames text) t s).2 = .ok summary ∧
      report.output = printed summary.toJson ∧
      Json.ofText? report.output = some (.ofMembers
        [("total", .natural summary.total), ("start", .natural summary.start),
          ("next_checkpoint", .natural summary.nextCheckpoint),
          ("attempted", .natural summary.tally.attempted),
          ("written", .natural summary.tally.recorded), ("cached", .natural summary.tally.known),
          ("skipped", .natural summary.tally.skipped), ("time_limited", .bool summary.timeLimited),
          ("pass_completed", .bool summary.passCompleted)])) ∧
    (report.ending.code ≠ 0 → report.ending.code = 1 ∧ report.output = "") ∧
    ((∀ text, t.read x.directory o.packages ≠ .ok (Text.encode text)) →
      report.ending.code = 1 ∧ o.requests x t s = [] ∧ report.outside = s ∧ report.tree = t) ∧
    (∀ e, ((o.desk x).store.create t x.directory).result = .error e →
      report.ending.code = 1 ∧ o.requests x t s = [] ∧ report.outside = s ∧
      ∀ p, report.tree.get? p = t.get? p ∨
        t.get? p = none ∧ report.tree.get? p = some .directory) := by
  have carried : program x arguments t s = run x o t s := by
    simp only [program, accepted, execute]
  dsimp only
  rw [carried]
  refine ⟨code_eq_zero_iff timed s, fun packages => Batch.made_of_mem_saves, ?_, ?_, ?_, ?_⟩
  · intro text needs
    have readable := packagesIn?_eq_some_iff.mpr ⟨text, needs.list, rfl⟩
    obtain ⟨summary, back⟩ := Batch.run_ok_iff.mpr needs.saved
    have performs := run_performs ⟨readable, needs.store⟩ timed s
    have output := (performs.of_ok back).2
    refine ⟨summary, back, output, ?_⟩
    rw [output, ofText?_printed]
    rfl
  · exact silent_of_code_ne_zero timed
  · intro none
    have noList := packagesIn?_eq_none_iff.mpr none
    have noted : packagesIn? x.logged t o.packages = .none := noList
    rw [RunOptions.requests, run_of_no_list noList, run_of_no_list noted]
    exact ⟨rfl, rfl, rfl, rfl⟩
  · intro e closed
    obtain ⟨failed, untouched, tree⟩ := run_of_closed_store timed closed s
    have noted : (run x.logged o t (s, [])).outside = (s, []) :=
      (run_of_closed_store (x := x.logged) timed closed (s, [])).2.1
    refine ⟨failed, by rw [RunOptions.requests, noted], untouched, fun p => ?_⟩
    rcases tree with same | made
    · exact .inl (by rw [same])
    · rw [made]
      exact get?_create p

/-- What is printed when the second of two packages has been skipped. -/
def skippedText : String :=
  "\x7b\n  \x22total\x22: 2,\n  \x22start\x22: 1,\n  \x22next_checkpoint\x22: 0,\n" ++
  "  \x22attempted\x22: 1,\n  \x22written\x22: 0,\n  \x22cached\x22: 0,\n" ++
  "  \x22skipped\x22: 1,\n  \x22time_limited\x22: false,\n" ++
  "  \x22pass_completed\x22: true\n\x7d\n"

/-- An index that is not there: no item succeeds, and the run does. -/
theorem run_endings_of_silence :
    Succeeds silence (listOptions "c" none) listTree () "a\nb\n" ∧
      let report := program silence ["run", "--packages", "l", "--output", "d", "--checkpoint", "c",
        "--index-url", ""] listTree ()
      report.ending.code = 0 ∧ report.output = skippedText := by
  have accepted : Invocation.ofArguments ["run", "--packages", "l", "--output", "d",
      "--checkpoint", "c", "--index-url", ""] = .ok ⟨false, .run (listOptions "c" none)⟩ := by rfl
  have ready := ready_listTree "c" none
  have names : Batch.packageNames "a\nb\n" = ["a", "b"] := by cbv
  have back : ((listOptions "c" none).batch silence ["a", "b"] listTree ()).2 =
      .ok ⟨2, 1, 0, ⟨0, 0, 1⟩, false, true⟩ := by cbv
  have saved : ∀ save ∈ (listOptions "c" none).saves silence ["a", "b"] listTree (),
      save.result = .ok () := Batch.run_ok_iff.mp ⟨_, back⟩
  have needs : Succeeds silence (listOptions "c" none) listTree () "a\nb\n" :=
    ⟨read_list _ _, ready.opened, by rwa [names]⟩
  obtain ⟨succeeds, _, prints, _⟩ :=
    run_endings accepted (hasDeadline_listOptions "c") listTree ()
  obtain ⟨summary, done, output, _⟩ := prints _ needs
  rw [names] at done
  obtain rfl := Except.ok.inj (back.symm.trans done)
  exact ⟨needs, succeeds.mpr ⟨_, needs⟩, output.trans (by cbv)⟩

end ApiInventory.Command

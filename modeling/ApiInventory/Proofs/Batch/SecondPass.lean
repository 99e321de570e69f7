import ApiInventory.Proofs.Batch.Repetition

/-!
# A second pass does no work twice

After runs that have taken all packages of a list, further runs over it record nothing and leave
all records as they are. What was recorded or known is known from then on, and only those packages
are downloaded again that were skipped after a download had been asked for (`NothingAgain`).

The checkpoint is the exception once more. It can bring about the directory for work areas, and
then a second pass does what the first one could not do.
-/

namespace ApiInventory.Batch

open Files (FileTree Place)

/-! ## Runs with their items -/

/-- What is seen of an item of a run. -/
structure Done where
  package : String
  calls : List Call
  outcome : Outcome

def Turn.done {σ : Type} (s : Services σ) (d : Desk) (turn : Turn σ) : Done :=
  ⟨turn.package, Item.calls s d turn.package turn.before, turn.outcome⟩

/-- What is seen of a run. -/
structure Report where
  summary : Summary
  items : List Done

/-- A run from the start of a list to its end, and what is seen of it. -/
structure Pass {σ : Type} (s : Services σ) (d : Desk) (limits : Limits) (packages : List String)
    (w : Progress σ) (report : Report) : Prop where
  start : told d w.tree = 0
  back : (run s d limits packages w).2 = .ok report.summary
  completed : report.summary.passCompleted = true
  items : (turns s d limits packages w).map (·.done s d) = report.items

/-- A pass takes all packages of its list. -/
theorem Pass.packages_eq {σ : Type} {s : Services σ} {d : Desk} {limits : Limits}
    {packages : List String} {w : Progress σ} {report : Report}
    (h : Pass s d limits packages w report) : report.items.map (·.package) = packages := by
  rw [← h.items, List.map_map]
  exact packages_of_completed h.start h.back h.completed

/-- Runs over one list, one after the other, that lead from one tree to another. Each has services
of its own that do what is expected for the packages of the list, and comes back with a summary.
Its checkpoint leaves some places alone, and with them the store and the directory for work
areas. -/
inductive Runs (b : Behaviour) (d : Desk) (S : Place) (places : Place → Prop)
    (packages : List String) : FileTree → List Report → FileTree → Prop
  | none {t : FileTree} : Runs b d S places packages t [] t
  | run {σ : Type} {s : Services σ} {limits : Limits} {w : Progress σ} {summary : Summary}
      {t : FileTree} {rest : List Report}
      (follows : ∀ package ∈ packages, s.FollowsFor b package)
      (back : (run s d limits packages w).2 = .ok summary)
      (alone : RunLeavesAlone s d S places limits packages w)
      (onward : Runs b d S places packages (run s d limits packages w).1.tree rest t) :
      Runs b d S places packages w.tree
        (⟨summary, (turns s d limits packages w).map (·.done s d)⟩ :: rest) t

/-- An item between one tree and another. -/
inductive IsItem (b : Behaviour) (d : Desk) (S : Place) (t t' : FileTree) : Done → Prop
  | item {σ : Type} {s : Services σ} {w : Progress σ} {package : String}
      (follows : s.FollowsFor b package) (before : d.Onward S Nowhere t w.tree)
      (after : d.Onward S Nowhere (Item.process s d package w).1.tree t') :
      IsItem b d S t t'
        ⟨package, Item.calls s d package w, (Item.process s d package w).2.outcome⟩

namespace IsItem

variable {b : Behaviour} {d : Desk} {S : Place} {t t₁ t₂ : FileTree} {x y : Done}

theorem found (h : IsItem b d S t t₁ x) :
    t.find d.directory d.store.folder = .ok (S, .directory) := by
  cases h with
  | item _ before _ => exact before.before

protected theorem mono (h : IsItem b d S t t₁ x) {t' t₁' : FileTree}
    (before : d.Onward S Nowhere t' t) (after : d.Onward S Nowhere t₁ t₁') :
    IsItem b d S t' t₁' x := by
  cases h with
  | item follows before' after' =>
      exact .item follows (before.trans before') (after'.trans after)

/-- What an item tells of an item of the same package after it. -/
theorem again (notLinked : b.NotLinked S y.package t) (first : IsItem b d S t t₁ y)
    (later : IsItem b d S t₁ t₂ x) (same : x.package = y.package) :
    x.outcome.isRecorded = false ∧
      (x.calls.any Call.isWork = true →
        y.calls.any Call.isWork = true ∧ y.outcome.isSkipped = true) ∧
      (y.outcome.isSkipped = false →
        x.calls = [.resolve x.package] ∧ ∃ token, x.outcome = .known token) := by
  cases first with
  | @item σ s w package follows before after =>
    cases later with
    | @item σ' s' w' package' follows' before' after' =>
      dsimp only at same notLinked ⊢
      subst same
      have onward := after.trans before'
      have notLinked := before.notLinked notLinked
      obtain ⟨account, exit⟩ := exists_exit s d S package' w
      obtain ⟨account', exit'⟩ := exists_exit s' d S package' w'
      have ends := exit.ends before.store
      have ends' := exit'.ends before'.store
      rw [ends.calls, ends.reply, ends'.calls, ends'.reply]
      refine ⟨?_, ?_, ?_⟩
      · rw [exit'.isRecorded_eq,
          exit'.gained_eq_none_of_later follows before.store notLinked onward follows']
        rfl
      · exact exit.works_of_later follows before.store notLinked onward follows' exit'
      · intro done
        obtain ⟨token, known⟩ :=
          exit.known_of_later follows before.store notLinked onward follows' done
        have ends := known.ends before'.store
        rw [← ends'.calls, ← ends'.reply, ends.calls, ends.reply]
        exact ⟨rfl, token, rfl⟩

/-- An item that comes after one of the same package leaves all places alone. -/
theorem onward_again (notLinked : b.NotLinked S y.package t) (first : IsItem b d S t t₁ y)
    {σ : Type} {s : Services σ} {w : Progress σ} (follows : s.FollowsFor b y.package)
    (later : d.Onward S Nowhere t₁ w.tree) (places : Place → Prop) :
    d.Onward S places w.tree (Item.process s d y.package w).1.tree := by
  cases first with
  | item follows' before after =>
      obtain ⟨account, exit⟩ := exists_exit s d S _ w
      have nothing := exit.gained_eq_none_of_later follows' before.store
        (before.notLinked notLinked) (after.trans later) follows
      exact exit.onward later.store (by simp [nothing])

end IsItem

namespace Runs

variable {b : Behaviour} {d : Desk} {S : Place} {places : Place → Prop} {packages : List String}
variable {t t₀ t' : FileTree} {reports : List Report}

protected theorem mono {places' : Place → Prop} (h : Runs b d S places packages t reports t')
    (fewer : ∀ q, places' q → places q) : Runs b d S places' packages t reports t' := by
  induction h with
  | none => exact .none
  | run follows back alone _ ih => exact .run follows back (alone.mono fewer) ih

theorem tally_eq (h : Runs b d S places packages t reports t') : ∀ report ∈ reports,
    report.summary.tally = (report.items.map (·.outcome)).foldl Tally.count .zero := by
  induction h with
  | none => simp
  | run _ back _ _ ih =>
      intro report member
      rcases List.mem_cons.mp member with rfl | member
      · rw [run_tally back, List.map_map]
        rfl
      · exact ih report member

/-- Runs go on with the store, and what they report of are items. -/
theorem items (h : Runs b d S Nowhere packages t reports t')
    (found : t.find d.directory d.store.folder = .ok (S, .directory))
    (notLinked : ∀ package ∈ packages, b.NotLinked S package t) :
    d.Onward S Nowhere t t' ∧
      ∀ x ∈ reports.flatMap (·.items), x.package ∈ packages ∧ IsItem b d S t t' x := by
  induction h with
  | none => exact ⟨.refl found Nowhere, by simp⟩
  | @run σ s limits w summary t' rest follows back alone _ ih =>
      obtain ⟨each, through⟩ := run_onward_all found alone fun turn member onward => by
        have inList := List.mem_of_getElem? (getElem?_of_mem_turns member)
        rw [attempted_tree_of_mem_turns member]
        exact Item.onward_nowhere (follows _ inList) onward.store
          (onward.notLinked (notLinked _ inList))
      obtain ⟨onward, later⟩ := ih through.store fun package inList =>
        through.notLinked (notLinked package inList)
      refine ⟨through.trans onward, ?_⟩
      intro x member
      rw [List.flatMap_cons, List.mem_append] at member
      rcases member with member | member
      · obtain ⟨turn, taken, rfl⟩ := List.mem_map.mp member
        obtain ⟨before, after⟩ := each turn taken
        have inList := List.mem_of_getElem? (getElem?_of_mem_turns taken)
        rw [attempted_tree_of_mem_turns taken] at after
        refine ⟨inList, ?_⟩
        rw [Turn.done, outcome_of_mem_turns taken]
        exact .item (follows _ inList) before (after.trans onward)
      · obtain ⟨inList, isItem⟩ := later x member
        exact ⟨inList, isItem.mono through (.refl onward.store Nowhere)⟩

/-- Runs over packages that were all taken before leave all places alone that their checkpoints
leave alone. -/
theorem idle (h : Runs b d S places packages t reports t')
    (found : t.find d.directory d.store.folder = .ok (S, .directory))
    (notLinked : ∀ package ∈ packages, b.NotLinked S package t₀)
    (taken : ∀ package ∈ packages, ∃ y, y.package = package ∧ IsItem b d S t₀ t y) :
    d.Onward S places t t' := by
  induction h with
  | none => exact .refl found places
  | run follows back alone _ ih =>
      obtain ⟨_, through⟩ := run_onward_all found alone fun turn member onward => by
        have inList := List.mem_of_getElem? (getElem?_of_mem_turns member)
        obtain ⟨y, same, isItem⟩ := taken _ inList
        rw [attempted_tree_of_mem_turns member, ← same]
        have follows := follows _ inList
        have notLinked := notLinked _ inList
        rw [← same] at follows notLinked
        exact isItem.onward_again notLinked follows (onward.mono fun _ => False.elim) places
      apply through.trans
      apply ih through.store
      intro package member
      obtain ⟨y, same, isItem⟩ := taken package member
      exact ⟨y, same, isItem.mono (.refl isItem.found Nowhere) (through.mono fun _ => False.elim)⟩

end Runs

/-! ## After a pass -/

/-- Runs that find nothing left to do after earlier ones, where `places` are left alone by their
checkpoints. -/
structure NothingAgain (places : Place → Prop) (earlier later : List Report) (t₁ t₂ : FileTree) :
    Prop where
  recordsNothing : ∀ report ∈ later, report.summary.tally.recorded = 0
  kept : ∀ q, places q → t₂.get? q = t₁.get? q
  /-- Services have work only with packages that they had work with before, and that were skipped
  all the same. -/
  worksAgain : ∀ x ∈ later.flatMap (·.items), x.calls.any Call.isWork = true →
    (∃ y ∈ earlier.flatMap (·.items), y.package = x.package) ∧
      ∀ y ∈ earlier.flatMap (·.items), y.package = x.package →
        y.calls.any Call.isWork = true ∧ y.outcome.isSkipped = true
  /-- What was not skipped is known after one call, which asks for its version. -/
  knownAgain : ∀ y ∈ earlier.flatMap (·.items), y.outcome.isSkipped = false →
    ∀ x ∈ later.flatMap (·.items), x.package = y.package →
      x.calls = [.resolve x.package] ∧ ∃ token, x.outcome = .known token

/-- **Nothing is done twice.** Once all packages of a list have been taken, in one run or in many,
further runs over the list have nothing left to do. There must be no links where records are
expected, and the checkpoints must not move the store, nor bring about or remove the directory for
work areas. -/
theorem nothingAgain {b : Behaviour} {d : Desk} {S : Place} {places : Place → Prop}
    {packages : List String} {t t₁ t₂ : FileTree} {earlier later : List Report}
    (found : t.find d.directory d.store.folder = .ok (S, .directory))
    (notLinked : ∀ package ∈ packages, b.NotLinked S package t)
    (pass : Runs b d S Nowhere packages t earlier t₁)
    (through : ∀ package ∈ packages, ∃ y ∈ earlier.flatMap (·.items), y.package = package)
    (further : Runs b d S places packages t₁ later t₂) :
    NothingAgain places earlier later t₁ t₂ := by
  obtain ⟨onward, first⟩ := pass.items found notLinked
  obtain ⟨_, second⟩ := (further.mono fun _ => False.elim).items onward.store
    fun package inList => onward.notLinked (notLinked package inList)
  have taken : ∀ package ∈ packages, ∃ y, y.package = package ∧ IsItem b d S t t₁ y := by
    intro package inList
    obtain ⟨y, member, same⟩ := through package inList
    exact ⟨y, same, (first y member).2⟩
  have again : ∀ y ∈ earlier.flatMap (·.items), ∀ x ∈ later.flatMap (·.items),
      x.package = y.package → _ := fun y member x member' same =>
    (first y member).2.again (notLinked _ (first y member).1) (second x member').2 same
  constructor
  case recordsNothing =>
    intro report member
    rw [further.tally_eq report member, Tally.recorded_foldl]
    have none : (report.items.map (·.outcome)).countP Outcome.isRecorded = 0 := by
      rw [List.countP_map, List.countP_eq_zero]
      intro x item
      have member' := List.mem_flatMap.mpr ⟨report, member, item⟩
      obtain ⟨y, member, same⟩ := through _ (second x member').1
      simp [(again y member x member' same.symm).1]
    rw [none]
    rfl
  case kept =>
    exact (further.idle onward.store notLinked taken).entry
  case worksAgain =>
    intro x member works
    exact ⟨through _ (second x member).1,
      fun y member' same => (again y member' x member same.symm).2.1 works⟩
  case knownAgain =>
    intro y member done x member' same
    exact (again y member x member' same).2.2 done

/-- A run of a pass, as `nothingAgain` wants it. -/
theorem Pass.runs {σ : Type} {s : Services σ} {b : Behaviour} {d : Desk} {S : Place}
    {places : Place → Prop} {limits : Limits} {packages : List String} {w : Progress σ}
    {report : Report} (h : Pass s d limits packages w report)
    (follows : ∀ package ∈ packages, s.FollowsFor b package)
    (alone : RunLeavesAlone s d S places limits packages w) :
    Runs b d S places packages w.tree [report] (run s d limits packages w).1.tree := by
  have one := Runs.run follows h.back alone .none
  rwa [h.items] at one

theorem nothingAgain_of_two_passes :
    ∃ earlier later again,
      again = (run noFiles sampleDesk ⟨3, 1⟩ ["a", "b", "a"] knownStart).1 ∧
      Pass noFiles sampleDesk ⟨3, 1⟩ ["a", "b", "a"] knownStart earlier ∧
      Pass noFiles sampleDesk ⟨3, 1⟩ ["a", "b", "a"] again later ∧
      NothingAgain (· ≠ ["at"]) [earlier] [later] again.tree
        (run noFiles sampleDesk ⟨3, 1⟩ ["a", "b", "a"] again).1.tree := by
  have start : told sampleDesk knownStart.tree = 0 := by cbv
  obtain ⟨summary₁, back₁, completed₁, tree₁, _⟩ := run_storeTree sampleDesk ["a", "b", "a"]
    save_sampleDesk ⟨_, by simp, rfl⟩ start
  have start' : told sampleDesk (storeTree "at" (.file (Checkpoint.content 0))) = 0 := start
  rw [← tree₁] at start'
  obtain ⟨summary₂, back₂, completed₂, _, _⟩ := run_storeTree sampleDesk ["a", "b", "a"]
    save_sampleDesk ⟨_, by simp, tree₁⟩ start'
  have pass₁ : Pass noFiles sampleDesk ⟨3, 1⟩ ["a", "b", "a"] knownStart ⟨summary₁, _⟩ :=
    ⟨start, back₁, completed₁, rfl⟩
  have pass₂ : Pass noFiles sampleDesk ⟨3, 1⟩ ["a", "b", "a"] _ ⟨summary₂, _⟩ :=
    ⟨start', back₂, completed₂, rfl⟩
  have follows : ∀ package ∈ ["a", "b", "a"], noFiles.FollowsFor noFilesBehaviour package :=
    fun package _ => noFiles_follows.followsFor package
  have alone₁ : RunLeavesAlone noFiles sampleDesk ["db"] Nowhere ⟨3, 1⟩ ["a", "b", "a"]
      knownStart := leavesAlone_storeTree rfl id _ _
  have alone₂ : RunLeavesAlone noFiles sampleDesk ["db"] (· ≠ ["at"]) ⟨3, 1⟩ ["a", "b", "a"] _ :=
    leavesAlone_storeTree tree₁ (by simp) _ _
  have found : knownStart.tree.find [] "db" = .ok (["db"], .directory) := by cbv
  have notLinked : ∀ package ∈ ["a", "b", "a"],
      noFilesBehaviour.NotLinked ["db"] package knownStart.tree :=
    fun _ _ _ target _ _ => noLinks_storeTree "at" _ _ target
  refine ⟨⟨summary₁, _⟩, ⟨summary₂, _⟩, _, rfl, pass₁, pass₂, ?_⟩
  apply nothingAgain found notLinked (pass₁.runs follows alone₁) _ (pass₂.runs follows alone₂)
  intro package inList
  rw [← pass₁.packages_eq] at inList
  obtain ⟨y, member, same⟩ := List.mem_map.mp inList
  exact ⟨y, by simpa using member, same⟩

/-! ## Where a checkpoint is in the way -/

/-- A pass of the sample services over their package alone. -/
theorem exists_pass {d : Desk} {S : Place} {w : Progress Unit} {calls : List Call}
    {reply : Reply Outcome} (holds : FileTree → Prop) (saved : Nat → FileTree)
    (saves : ∀ t position, holds t →
      Checkpoint.save t d.directory d.checkpoint position true = ⟨saved position, .ok ()⟩)
    (after : ∀ position, holds (saved position)) (first : holds w.tree)
    (start : told d w.tree = 0)
    (ends : ∀ w' : Progress Unit, w'.tree = w.tree →
      Item.Ends noFiles d S "a" w' ⟨calls, reply, none⟩) :
    ∃ summary, Pass noFiles d ⟨1, 1⟩ ["a"] w ⟨summary, [⟨"a", calls, reply.outcome⟩]⟩ ∧
      (run noFiles d ⟨1, 1⟩ ["a"] w).1.tree = saved 0 := by
  obtain ⟨summary, back, completed, tree, _⟩ := run_noFiles d ["a"] holds saved saves after first
    start
  refine ⟨summary, ⟨start, back, completed, ?_⟩, tree⟩
  have chain := turns_chain noFiles d ⟨1, 1⟩ ["a"] w
  have ended : ∀ turn ∈ turns noFiles d ⟨1, 1⟩ ["a"] w, _ := fun _ => outcome_of_mem_turns
  obtain ⟨turn, one, package⟩ :
      ∃ turn, turns noFiles d ⟨1, 1⟩ ["a"] w = [turn] ∧ turn.package = "a" := by
    simpa [List.map_eq_cons_iff] using packages_of_completed start back completed
  rw [one] at chain ended ⊢
  have ends := ends turn.before chain.before_eq
  have outcome := ended turn (by simp)
  rw [package, ends.reply] at outcome
  rw [List.map_singleton, Turn.done, package, ends.calls, outcome]

/-- Services that have work with a package which was not downloaded before have something left to
do. -/
theorem not_nothingAgain {places : Place → Prop} {t₁ t₂ : FileTree} {earlier later : Report}
    {x y : Done} (first : earlier.items = [y]) (second : later.items = [x])
    (same : y.package = x.package) (idle : y.calls.any Call.isWork = false)
    (works : x.calls.any Call.isWork = true) : ¬NothingAgain places [earlier] [later] t₁ t₂ := by
  intro h
  obtain ⟨_, before⟩ := h.worksAgain x (by simp [second]) works
  obtain ⟨busy, _⟩ := before y (by simp [first]) same
  rw [idle] at busy
  cases busy

/-- Two passes of the sample services over their package, which is downloaded in the second one
alone. -/
theorem exists_passes {d : Desk} {S : Place} {w : Progress Unit} {reply reply' : Reply Outcome}
    (holds : FileTree → Prop) (saved : Nat → FileTree)
    (saves : ∀ t position, holds t →
      Checkpoint.save t d.directory d.checkpoint position true = ⟨saved position, .ok ()⟩)
    (after : ∀ position, holds (saved position)) (first : holds w.tree)
    (start : told d w.tree = 0) (start' : told d (saved 0) = 0)
    (ends : ∀ w' : Progress Unit, w'.tree = w.tree →
      Item.Ends noFiles d S "a" w' ⟨[.resolve "a"], reply, none⟩)
    (ends' : ∀ w' : Progress Unit, w'.tree = saved 0 →
      Item.Ends noFiles d S "a" w' ⟨[.resolve "a", .fetch "a" "1.2"], reply', none⟩) :
    ∃ earlier later again, again = (run noFiles d ⟨1, 1⟩ ["a"] w).1 ∧
      Pass noFiles d ⟨1, 1⟩ ["a"] w earlier ∧ Pass noFiles d ⟨1, 1⟩ ["a"] again later ∧
      earlier.items = [⟨"a", [.resolve "a"], reply.outcome⟩] ∧
      later.items = [⟨"a", [.resolve "a", .fetch "a" "1.2"], reply'.outcome⟩] ∧
      ¬NothingAgain Nowhere [earlier] [later] again.tree
        (run noFiles d ⟨1, 1⟩ ["a"] again).1.tree := by
  obtain ⟨_, pass, tree⟩ := exists_pass holds saved saves after first start ends
  rw [← tree] at start' ends'
  have first' : holds (run noFiles d ⟨1, 1⟩ ["a"] w).1.tree := by
    rw [tree]
    exact after 0
  obtain ⟨_, pass', _⟩ := exists_pass holds saved saves after first' start' ends'
  exact ⟨_, _, _, rfl, pass, pass', rfl, rfl, not_nothingAgain rfl rfl rfl rfl rfl⟩

/-- A desk whose checkpoint is in its directory for work areas. -/
def workDesk : Desk := ⟨[], ⟨"db"⟩, "t/at", "t"⟩

/-- The sample tree with a checkpoint of that desk. -/
def workTree (content : ByteArray) : FileTree :=
  ⟨[(["t", "at"], .file content), (["t"], .directory), (["db"], .directory)], []⟩

def IsWorkTree (t : FileTree) : Prop := t = sampleTree ∨ ∃ content, t = workTree content

theorem save_workDesk {t : FileTree} (h : IsWorkTree t) (position : Nat) :
    Checkpoint.save t [] "t/at" position true =
      ⟨workTree (Checkpoint.content position), .ok ()⟩ := by
  rcases h with rfl | ⟨content, rfl⟩ <;> cbv

/-- As long as there is no checkpoint, there is no directory for work areas. -/
theorem ends_sampleTree {w : Progress Unit} (tree : w.tree = sampleTree) :
    Item.Ends noFiles workDesk ["db"] "a" w ⟨[.resolve "a"], .answer (.skipped
      (.ofFailure Files.FileError.notFound.message ["create work dir"])), none⟩ := by
  have found : sampleTree.find [] "db" = .ok (["db"], .directory) := by cbv
  have unknown := has_sampleTree workDesk.store [] "a" (versionToken "1.2")
  have missing : sampleTree.isDirectory [] "t" = false := by cbv
  rw [← tree] at found unknown missing
  have exit : Exit noFiles workDesk ["db"] "a" w _ := .noScratch (by decide) rfl unknown missing
  exact exit.ends found

/-- A checkpoint brings it about. -/
theorem ends_workTree {w : Progress Unit} {content : ByteArray} (tree : w.tree = workTree content) :
    Item.Ends noFiles workDesk ["db"] "a" w
      ⟨[.resolve "a", .fetch "a" "1.2"], .answer (.skipped .notDownloaded), none⟩ := by
  have found : (workTree content).find [] "db" = .ok (["db"], .directory) := by cbv
  have missing : (workTree content).get? (["db"] ++ [recordName "a" (versionToken "1.2")]) =
      none := by
    simp [FileTree.get?, workTree, FileTree.lookup_cons_if]
  have noLink : ∀ target, (workTree content).get?
      (["db"] ++ [recordName "a" (versionToken "1.2")]) ≠ some (.link target) := by
    intro target link
    rw [missing] at link
    cases link
  have unknown : workDesk.store.has (workTree content) [] "a" (versionToken "1.2") = false := by
    rw [Bool.eq_false_iff]
    intro known
    obtain ⟨_, _, entry⟩ := (RecordStore.has_iff found noLink).mp known
    rw [missing] at entry
    cases entry
  have scratch : (workTree content).isDirectory [] "t" = true := by cbv
  rw [← tree] at unknown scratch
  have seeks : Seeks noFiles workDesk "a" w "1.2" := ⟨by decide, rfl, unknown, scratch⟩
  exact seeks.ends_of_nothing rfl

/-- Passes that leave something to do. In the first one there is no directory for work areas until
a checkpoint is saved; in the second one a record is known until a checkpoint cuts off the store.
When the package is taken again, it is downloaded. -/
theorem not_nothingAgain_of_checkpoint :
    noFiles.Follows noFilesBehaviour ∧
      (∃ earlier later again, again = (run noFiles workDesk ⟨1, 1⟩ ["a"] ⟨sampleTree, (), []⟩).1 ∧
        Pass noFiles workDesk ⟨1, 1⟩ ["a"] ⟨sampleTree, (), []⟩ earlier ∧
        Pass noFiles workDesk ⟨1, 1⟩ ["a"] again later ∧
        earlier.items = [⟨"a", [.resolve "a"], .skipped
          (.ofFailure Files.FileError.notFound.message ["create work dir"])⟩] ∧
        later.items = [⟨"a", [.resolve "a", .fetch "a" "1.2"], .skipped .notDownloaded⟩] ∧
        ¬NothingAgain Nowhere [earlier] [later] again.tree
          (run noFiles workDesk ⟨1, 1⟩ ["a"] again).1.tree) ∧
      ∃ earlier later again, again = (run noFiles movedDesk ⟨1, 1⟩ ["a"] linkedStart).1 ∧
        Pass noFiles movedDesk ⟨1, 1⟩ ["a"] linkedStart earlier ∧
        Pass noFiles movedDesk ⟨1, 1⟩ ["a"] again later ∧
        earlier.items = [⟨"a", [.resolve "a"], .known (versionToken "1.2")⟩] ∧
        later.items = [⟨"a", [.resolve "a", .fetch "a" "1.2"], .skipped .notDownloaded⟩] ∧
        ¬NothingAgain Nowhere [earlier] [later] again.tree
          (run noFiles movedDesk ⟨1, 1⟩ ["a"] again).1.tree := by
  refine ⟨noFiles_follows, ?_, ?_⟩
  · have start : told workDesk sampleTree = 0 := by cbv
    have start' : told workDesk (workTree (Checkpoint.content 0)) = 0 := by cbv
    exact exists_passes (w := ⟨sampleTree, (), []⟩) IsWorkTree
      (fun position => workTree (Checkpoint.content position))
      (fun _ position h => save_workDesk h position) (fun _ => .inr ⟨_, rfl⟩) (.inl rfl)
      start start' (fun _ => ends_sampleTree) fun _ => ends_workTree
  · have start : told movedDesk linkedStart.tree = 0 := by cbv
    have start' : told movedDesk (storeTree "k" (.file (Checkpoint.content 0))) = 0 := by cbv
    refine exists_passes (S := ["db"]) (IsStoreTree "k")
      (fun position => storeTree "k" (.file (Checkpoint.content position))) ?_
      (fun _ => ⟨_, by simp, rfl⟩) ⟨_, by simp, rfl⟩ start start'
      (fun _ => ends_linkedStart) fun _ => ends_cutStore
    rintro _ position ⟨e, noDirectory, rfl⟩
    exact save_movedDesk e position noDirectory

end ApiInventory.Batch

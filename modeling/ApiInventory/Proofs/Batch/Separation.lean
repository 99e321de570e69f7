import ApiInventory.Proofs.Batch.Repetition

/-!
# Items of a pass do not meddle with each other

A pass goes over a whole list. What it does for a package does not depend on the other packages of
the list, on their order or on what services do for them: the first attempt at a package sees of
the files what was there before the pass, and no other item touches what this attempt leaves
behind (`CompletePass.exists_first`).

Versions have to sort, since records of other versions can share a name. And the checkpoint must
not be in the way of the store: it is saved after every item, so that an item can find another
store, or another directory for work areas, than it would have found before.
-/

namespace ApiInventory.Batch

open Files (FileTree Place)

variable {σ σ' : Type}

/-- A place for a record of one package. -/
def IsRecordOf (S : Place) (package : String) (q : Place) : Prop :=
  ∃ version, isSortable version = true ∧ q = S ++ [recordName package (versionToken version)]

theorem IsRecordOf.isRecordPlace {S : Place} {package : String} {q : Place}
    (h : IsRecordOf S package q) (safe : isSafePart package = true) :
    IsRecordPlace S (isSortable · = true) q := by
  obtain ⟨version, sortable, rfl⟩ := h
  exact ⟨package, version, safe, sortable, rfl⟩

/-- Records of two packages have different places. -/
theorem not_isRecordOf {S : Place} {p q v : String} (safe : isSafePart p = true)
    (safe' : isSafePart q = true) (sortable : isSortable v = true) (other : p ≠ q) :
    ¬IsRecordOf S p (S ++ [recordName q (versionToken v)]) := by
  rintro ⟨version, sortable', same⟩
  have names : recordName q (versionToken v) = recordName p (versionToken version) := by
    simpa using same
  exact other (recordName_inj_of_isSortable safe' safe sortable sortable' names).1.symm

/-- A run over a whole list. All versions that it comes to sort, there are no links in the place
of a record, and the checkpoint leaves all such places alone, with some others perhaps. -/
structure CompletePass (s : Services σ) (d : Desk) (S : Place) (places : Place → Prop)
    (limits : Limits) (packages : List String) (w : Progress σ) : Prop where
  start : told d w.tree = 0
  completed : ∃ summary, (run s d limits packages w).2 = .ok summary ∧
    summary.passCompleted = true
  sortable : ∀ turn ∈ turns s d limits packages w, isSafePart turn.package = true → ∀ v,
    (s.resolve turn.package turn.before.outside).1 = .answer (some v) → isSortable v = true
  noLinks : ∀ q target, IsRecordPlace S (isSortable · = true) q →
    w.tree.get? q ≠ some (.link target)
  records : ∀ q, IsRecordPlace S (isSortable · = true) q → places q
  alone : RunLeavesAlone s d S places limits packages w

/-- The first turn that takes a package. -/
def firstTurn? (package : String) (turns : List (Turn σ)) : Option (Turn σ) :=
  turns.find? fun turn => turn.package = package

theorem exists_firstTurn? {package : String} {turns : List (Turn σ)}
    (member : package ∈ turns.map (·.package)) :
    ∃ turn before after, turns = before ++ turn :: after ∧ firstTurn? package turns = some turn ∧
      turn.package = package ∧ ∀ x ∈ before, package ≠ x.package := by
  obtain ⟨turn, mem, same⟩ := List.mem_map.mp member
  obtain ⟨first, found⟩ : ∃ first, firstTurn? package turns = some first :=
    Option.isSome_iff_exists.mp (List.find?_isSome.mpr ⟨turn, mem, by simpa using same⟩)
  obtain ⟨chosen, before, after, split, others⟩ := List.find?_eq_some_iff_append.mp found
  refine ⟨first, before, after, split, found, by simpa using chosen, ?_⟩
  intro x mem same
  simpa [same] using others x mem

namespace CompletePass

variable {s : Services σ} {d : Desk} {S : Place} {places places' : Place → Prop}
variable {limits : Limits} {packages : List String} {w : Progress σ} {package : String}

theorem packages_eq (h : CompletePass s d S places limits packages w) :
    (turns s d limits packages w).map (·.package) = packages := by
  obtain ⟨summary, done, completed⟩ := h.completed
  exact packages_of_completed h.start done completed

theorem leavesRecords (h : CompletePass s d S places limits packages w)
    (safe : isSafePart package = true) :
    RunLeavesAlone s d S (IsRecordOf S package) limits packages w :=
  h.alone.mono fun q place => h.records q (place.isRecordPlace safe)

section Turn

variable {turn : Turn σ}

theorem notLinked {b : Behaviour} {t : FileTree} (h : CompletePass s d S places limits packages w)
    (follows : s.FollowsFor b turn.package) (member : turn ∈ turns s d limits packages w)
    (evolution : w.tree.Evolves (fun _ => True) t) : b.NotLinked S turn.package t := by
  intro v target safe answer link
  have sorts := h.sortable turn member safe v ((follows.resolve _).trans answer)
  exact h.noLinks _ target ⟨_, v, safe, sorts, rfl⟩ (evolution.link_before link)

/-- An item of a pass leaves places alone that are not for records of its package. -/
theorem onward_item (h : CompletePass s d S places limits packages w)
    (member : turn ∈ turns s d limits packages w)
    (found : turn.before.tree.find d.directory d.store.folder = .ok (S, .directory))
    (evolution : w.tree.Evolves (fun _ => True) turn.before.tree)
    (apart : ∀ v, isSafePart turn.package = true → isSortable v = true →
      ¬places' (S ++ [recordName turn.package (versionToken v)])) :
    d.Onward S places' turn.before.tree turn.attempted.tree := by
  rw [attempted_tree_of_mem_turns member]
  apply Item.onward found s turn.package
  intro v safe resolved
  have sorts := h.sortable turn member safe v resolved
  refine ⟨apart v safe sorts, fun target link => ?_⟩
  exact h.noLinks _ target ⟨_, v, safe, sorts, rfl⟩ (evolution.link_before link)

/-- The turn of another package leaves the records of a package alone. -/
theorem onward_of_other (h : CompletePass s d S places limits packages w)
    (safe : isSafePart package = true) (member : turn ∈ turns s d limits packages w)
    (other : package ≠ turn.package) {t : FileTree}
    (evolution : w.tree.Evolves (fun _ => True) turn.before.tree)
    (onward : d.Onward S (IsRecordOf S package) t turn.before.tree) :
    d.Onward S (IsRecordOf S package) t turn.after.tree := by
  apply (h.leavesRecords safe).turn_onward member
  apply onward.trans
  apply h.onward_item member onward.store evolution
  intro v safe' sorts
  exact not_isRecordOf safe safe' sorts other

/-- A later turn of the same package leaves them alone as well. -/
theorem onward_of_again {b : Behaviour} (h : CompletePass s d S places limits packages w)
    (safe : isSafePart turn.package = true) (follows : s.FollowsFor b turn.package)
    {first : Turn σ} (member₁ : first ∈ turns s d limits packages w)
    (same : first.package = turn.package) (member : turn ∈ turns s d limits packages w)
    (found : first.before.tree.find d.directory d.store.folder = .ok (S, .directory))
    (evolution : w.tree.Evolves (fun _ => True) first.before.tree)
    (onward : d.Onward S (IsRecordOf S turn.package) first.attempted.tree turn.before.tree) :
    d.Onward S (IsRecordOf S turn.package) first.attempted.tree turn.after.tree := by
  apply (h.leavesRecords safe).turn_onward member
  apply onward.trans
  obtain ⟨account, exit⟩ := exists_exit s d S turn.package turn.before
  have since : d.Onward S Nowhere first.attempted.tree turn.before.tree :=
    onward.mono fun _ => False.elim
  rw [attempted_tree_of_mem_turns member₁, same] at since
  have nothing := Exit.gained_eq_none_of_later follows found (h.notLinked follows member evolution)
    since follows exit
  rw [attempted_tree_of_mem_turns member]
  exact exit.onward onward.store (by simp [nothing])

end Turn

/-- The first attempt at a package finds its records as they were before the pass, and the pass
leaves them as they are after the attempt. -/
theorem exists_first {b : Behaviour} (h : CompletePass s d S places limits packages w)
    (found : w.tree.find d.directory d.store.folder = .ok (S, .directory))
    (safe : isSafePart package = true) (member : package ∈ packages)
    (follows : s.FollowsFor b package) :
    ∃ turn ∈ turns s d limits packages w,
      firstTurn? package (turns s d limits packages w) = some turn ∧ turn.package = package ∧
      d.Onward S (IsRecordOf S package) w.tree turn.before.tree ∧
      d.Onward S (IsRecordOf S package) turn.attempted.tree (run s d limits packages w).1.tree := by
  rw [← h.packages_eq] at member
  obtain ⟨turn, before, after, split, first, rfl, others⟩ := exists_firstTurn? member
  have inside : ∀ x ∈ before ++ turn :: after, x ∈ turns s d limits packages w := by
    simp [split]
  have memberFirst := inside turn (by simp)
  have chain := turns_chain s d limits packages w
  rw [split] at chain
  obtain ⟨chain₁, chain₂⟩ := chain.of_append
  -- up to the first attempt
  obtain ⟨_, reached⟩ := chain₁.invariant
    (fun t => d.Onward S (IsRecordOf S turn.package) w.tree t) (.refl found _)
    fun x mem onward =>
      h.onward_of_other safe (inside x (by simp [mem])) (others x mem) onward.evolves onward
  rw [← chain₂.before_eq] at reached
  -- the attempt itself
  have item : d.Onward S Nowhere turn.before.tree turn.attempted.tree :=
    h.onward_item memberFirst reached.store reached.evolves fun _ _ _ => id
  have saved : d.Onward S (IsRecordOf S turn.package) turn.attempted.tree turn.after.tree :=
    (h.leavesRecords safe).turn_onward memberFirst (.refl item.store _)
  -- from then on
  obtain ⟨_, ended⟩ := chain₂.onward.invariant
    (fun t => d.Onward S (IsRecordOf S turn.package) turn.attempted.tree t) saved
    fun x mem onward => by
      have memberLater := inside x (by simp [mem])
      by_cases again : turn.package = x.package
      · rw [again] at safe follows onward ⊢
        exact h.onward_of_again safe follows memberFirst again memberLater reached.store
          reached.evolves onward
      · exact h.onward_of_other safe memberLater again
          (reached.evolves.trans (item.evolves.trans onward.evolves)) onward
  refine ⟨turn, memberFirst, first, rfl, reached, run_onward ?_ (h.leavesRecords safe)⟩
  rwa [split, treeAfter_append, treeAfter_cons]

/-- A pass leaves places alone that are not for records of its packages. -/
theorem onward_of_apart (h : CompletePass s d S places limits packages w)
    (found : w.tree.find d.directory d.store.folder = .ok (S, .directory))
    (fewer : ∀ q, places' q → places q)
    (apart : ∀ package ∈ packages, ∀ v, isSafePart package = true → isSortable v = true →
      ¬places' (S ++ [recordName package (versionToken v)])) :
    d.Onward S places' w.tree (run s d limits packages w).1.tree := by
  have alone := h.alone.mono fewer
  obtain ⟨_, ended⟩ := run_onward_all found alone fun turn member onward => by
    have inList : turn.package ∈ packages := by
      rw [← h.packages_eq]
      exact List.mem_map_of_mem member
    exact h.onward_item member onward.store onward.evolves (apart turn.package inList)
  exact ended

end CompletePass

section Two

variable {s : Services σ} {s' : Services σ'} {d : Desk} {S : Place} {places : Place → Prop}
variable {limits limits' : Limits} {packages packages' : List String}
variable {w : Progress σ} {w' : Progress σ'} {package : String} {b : Behaviour}

/-- What two passes do for a package that both take. -/
theorem CompletePass.same_of_mem
    (same : d.Agree S places w.tree w'.tree)
    (pass : CompletePass s d S places limits packages w)
    (pass' : CompletePass s' d S places limits' packages' w') (safe : isSafePart package = true)
    (member : package ∈ packages) (member' : package ∈ packages')
    (follows : s.FollowsFor b package) (follows' : s'.FollowsFor b package) :
    (∃ outcome,
      (firstTurn? package (turns s d limits packages w)).map (·.outcome) = some outcome ∧
      (firstTurn? package (turns s' d limits' packages' w')).map (·.outcome) = some outcome) ∧
    ∀ q, IsRecordOf S package q →
      (run s' d limits' packages' w').1.tree.get? q = (run s d limits packages w).1.tree.get? q := by
  obtain ⟨turn, mem, first, rfl, before, after⟩ :=
    pass.exists_first same.before safe member follows
  obtain ⟨turn', mem', first', named, before', after'⟩ :=
    pass'.exists_first same.store safe member' follows'
  have records : d.Agree S (IsRecordOf S turn.package) turn.before.tree turn'.before.tree :=
    before.toAgree.symm.trans ((same.mono fun q place =>
      pass.records q (place.isRecordPlace safe)).trans before'.toAgree)
  have shows : d.ShowsSame b S turn.package turn.before.tree turn'.before.tree := by
    refine records.showsSame (fun v _ answer => ?_) fun q target place link => ?_
    · exact ⟨v, pass.sortable turn mem safe v ((follows.resolve _).trans answer), rfl⟩
    · exact pass.noLinks q target (place.isRecordPlace safe) (before.evolves.link_before link)
  obtain ⟨account, exit⟩ := exists_exit s d S turn.package turn.before
  have ends := exit.ends before.store
  have ends' := (exit.transfer follows follows' shows).ends before'.store
  rw [← named] at ends'
  have outcome : turn.outcome = account.reply.outcome :=
    (outcome_of_mem_turns mem).trans (congrArg Reply.outcome ends.reply)
  have outcome' : turn'.outcome = account.reply.outcome :=
    (outcome_of_mem_turns mem').trans (congrArg Reply.outcome ends'.reply)
  refine ⟨⟨account.reply.outcome, by rw [first, Option.map_some, outcome],
    by rw [first', Option.map_some, outcome']⟩, fun q place => ?_⟩
  rw [after.entry q place, after'.entry q place, attempted_tree_of_mem_turns mem,
    attempted_tree_of_mem_turns mem']
  exact ends.gains.get?_eq ends'.gains (records.entry q place)

/-- The places that no record of a listed package can take are the same after two passes. -/
theorem CompletePass.same_elsewhere (same : d.Agree S places w.tree w'.tree)
    (pass : CompletePass s d S places limits packages w)
    (pass' : CompletePass s' d S places limits' packages' w') {q : Place} (place : places q)
    (apart : ∀ package, package ∈ packages ∨ package ∈ packages' → ∀ v,
      isSafePart package = true → isSortable v = true →
      S ++ [recordName package (versionToken v)] ≠ q) :
    (run s' d limits' packages' w').1.tree.get? q = (run s d limits packages w).1.tree.get? q := by
  have only : ∀ p, p = q → places p := by
    rintro _ rfl
    exact place
  have kept := pass.onward_of_apart same.before only fun package inList =>
    apart package (.inl inList)
  have kept' := pass'.onward_of_apart same.store only fun package inList =>
    apart package (.inr inList)
  rw [kept.entry q rfl, kept'.entry q rfl, same.entry q place]

/-- **No item of a pass influences another.** Two passes that start from the same records do the
same for every package that both of them take and for which their services do the same: its first
attempt comes to the same outcome, and the records of it are the same in the end. If they take the
same packages, in whatever order and however often, then the whole store is the same in the end,
as far as their checkpoints leave it alone. -/
theorem separation (same : d.Agree S places w.tree w'.tree)
    (pass : CompletePass s d S places limits packages w)
    (pass' : CompletePass s' d S places limits' packages' w') :
    (∀ package b, isSafePart package = true → package ∈ packages → package ∈ packages' →
      s.FollowsFor b package → s'.FollowsFor b package →
      (∃ outcome,
        (firstTurn? package (turns s d limits packages w)).map (·.outcome) = some outcome ∧
        (firstTurn? package (turns s' d limits' packages' w')).map (·.outcome) = some outcome) ∧
      ∀ v, isSortable v = true →
        (run s' d limits' packages' w').1.tree.get? (S ++ [recordName package (versionToken v)]) =
          (run s d limits packages w).1.tree.get? (S ++ [recordName package (versionToken v)])) ∧
    ((∀ package, package ∈ packages ↔ package ∈ packages') →
      (∀ package ∈ packages, ∃ b, s.FollowsFor b package ∧ s'.FollowsFor b package) →
      ∀ q, places q →
        (run s' d limits' packages' w').1.tree.get? q =
          (run s d limits packages w).1.tree.get? q) := by
  constructor
  · intro package b safe member member' follows follows'
    obtain ⟨outcome, records⟩ := pass.same_of_mem same pass' safe member member' follows follows'
    exact ⟨outcome, fun v sortable => records _ ⟨v, sortable, rfl⟩⟩
  · intro members behave q place
    by_cases record : ∃ package ∈ packages, isSafePart package = true ∧ IsRecordOf S package q
    · obtain ⟨package, member, safe, record⟩ := record
      obtain ⟨b, follows, follows'⟩ := behave package member
      have member' := (members package).mp member
      exact (pass.same_of_mem same pass' safe member member' follows follows').2 q record
    · apply pass.same_elsewhere same pass' place
      intro package member v safe sortable here
      rw [← members, or_self] at member
      exact record ⟨package, member, safe, v, sortable, here.symm⟩

end Two

/-- Passes of the sample services over any list are as `separation` asks. -/
theorem completePass_noFiles (packages : List String) :
    CompletePass noFiles sampleDesk ["db"] (· ≠ ["at"]) ⟨packages.length, 1⟩ packages
      knownStart where
  start := by cbv
  completed := by
    have first : IsStoreTree "at" knownStart.tree := ⟨_, by simp, rfl⟩
    obtain ⟨summary, back, completed, _, _⟩ :=
      run_storeTree sampleDesk packages save_sampleDesk first (by cbv)
    exact ⟨summary, back, completed⟩
  sortable _ _ _ _ := isSortable_of_resolve_noFiles
  noLinks q target _ := noLinks_storeTree "at" (Checkpoint.content 0) q target
  records := by
    rintro _ ⟨package, version, _, _, rfl⟩
    simp
  alone := leavesAlone_storeTree rfl (by simp) _ _

theorem separation_of_two_lists :
    CompletePass noFiles sampleDesk ["db"] (· ≠ ["at"]) ⟨2, 1⟩ ["a", "b"] knownStart ∧
      CompletePass noFiles sampleDesk ["db"] (· ≠ ["at"]) ⟨3, 1⟩ ["b", "a", "a"] knownStart ∧
      (∃ outcome,
        (firstTurn? "a" (turns noFiles sampleDesk ⟨2, 1⟩ ["a", "b"] knownStart)).map (·.outcome) =
          some outcome ∧
        (firstTurn? "a" (turns noFiles sampleDesk ⟨3, 1⟩ ["b", "a", "a"] knownStart)).map
          (·.outcome) = some outcome) ∧
      ∀ q, q ≠ ["at"] →
        (run noFiles sampleDesk ⟨3, 1⟩ ["b", "a", "a"] knownStart).1.tree.get? q =
          (run noFiles sampleDesk ⟨2, 1⟩ ["a", "b"] knownStart).1.tree.get? q := by
  have found : knownStart.tree.find [] "db" = .ok (["db"], .directory) := by cbv
  have same : sampleDesk.Agree ["db"] (· ≠ ["at"]) knownStart.tree knownStart.tree :=
    .refl found _
  have follows := noFiles_follows.followsFor
  have safe : isSafePart "a" = true := by decide
  have pass := completePass_noFiles ["a", "b"]
  have pass' := completePass_noFiles ["b", "a", "a"]
  obtain ⟨each, all⟩ := separation same pass pass'
  refine ⟨pass, pass', ?_, ?_⟩
  · exact (each "a" noFilesBehaviour safe (by simp) (by simp) (follows "a") (follows "a")).1
  · exact all (by simp [or_comm]) fun package _ => ⟨_, follows package, follows package⟩

/-- Passes over two lists, both with the package `a`, that come to another outcome for it: in one
of them the checkpoint after an item before has cut off the store. -/
theorem not_separate_of_moved_store :
    told movedDesk linkedStart.tree = 0 ∧ noFiles.Follows noFilesBehaviour ∧
      (∃ summary, (run noFiles movedDesk ⟨1, 1⟩ ["a"] linkedStart).2 = .ok summary ∧
        summary.passCompleted = true) ∧
      (∃ summary, (run noFiles movedDesk ⟨2, 1⟩ ["b", "a"] linkedStart).2 = .ok summary ∧
        summary.passCompleted = true) ∧
      (∀ package v o, (noFiles.resolve package o).1 = .answer (some v) → isSortable v = true) ∧
      ¬∃ outcome,
        (firstTurn? "a" (turns noFiles movedDesk ⟨1, 1⟩ ["a"] linkedStart)).map (·.outcome) =
          some outcome ∧
        (firstTurn? "a" (turns noFiles movedDesk ⟨2, 1⟩ ["b", "a"] linkedStart)).map
          (·.outcome) = some outcome := by
  have start : told movedDesk linkedStart.tree = 0 := by cbv
  have first : IsStoreTree "k" linkedStart.tree := ⟨_, by simp, rfl⟩
  obtain ⟨summary₁, done₁, through₁, _, _⟩ :=
    run_storeTree movedDesk ["a"] save_movedDesk first start
  obtain ⟨summary₂, done₂, through₂, _, saved₂⟩ :=
    run_storeTree movedDesk ["b", "a"] save_movedDesk first start
  refine ⟨start, noFiles_follows, ⟨_, done₁, through₁⟩, ⟨_, done₂, through₂⟩,
    fun _ _ _ => isSortable_of_resolve_noFiles, ?_⟩
  rintro ⟨outcome, first₁, first₂⟩
  have chain₁ := turns_chain noFiles movedDesk ⟨1, 1⟩ ["a"] linkedStart
  have chain₂ := turns_chain noFiles movedDesk ⟨2, 1⟩ ["b", "a"] linkedStart
  have ended₁ : ∀ turn ∈ turns noFiles movedDesk ⟨1, 1⟩ ["a"] linkedStart, _ :=
    fun _ => outcome_of_mem_turns
  have ended₂ : ∀ turn ∈ turns noFiles movedDesk ⟨2, 1⟩ ["b", "a"] linkedStart, _ :=
    fun _ => outcome_of_mem_turns
  obtain ⟨turn₁, turns₁, package₁⟩ : ∃ turn, turns noFiles movedDesk ⟨1, 1⟩ ["a"] linkedStart =
      [turn] ∧ turn.package = "a" := by
    simpa [List.map_eq_cons_iff] using packages_of_completed start done₁ through₁
  obtain ⟨turn₀, turn₂, turns₂, package₀, package₂⟩ : ∃ turn₀ turn,
      turns noFiles movedDesk ⟨2, 1⟩ ["b", "a"] linkedStart = [turn₀, turn] ∧
        turn₀.package = "b" ∧ turn.package = "a" := by
    simpa [List.map_eq_cons_iff] using packages_of_completed start done₂ through₂
  rw [turns₁] at chain₁ ended₁ first₁
  rw [turns₂] at chain₂ ended₂ first₂
  have same₁ : turn₁.outcome = outcome := by simpa [firstTurn?, package₁] using first₁
  have same₂ : turn₂.outcome = outcome := by
    simpa [firstTurn?, package₀, package₂] using first₂
  have known : Item.Ends noFiles movedDesk ["db"] "a" turn₁.before _ :=
    ends_linkedStart chain₁.before_eq
  have skipped : Item.Ends noFiles movedDesk ["db"] "a" turn₂.before _ :=
    ends_cutStore (chain₂.onward.before_eq.trans (saved₂ turn₀ (by simp [turns₂])))
  have outcome₁ := ended₁ turn₁ (by simp)
  have outcome₂ := ended₂ turn₂ (by simp)
  rw [package₁, known.reply, same₁] at outcome₁
  rw [package₂, skipped.reply, same₂, outcome₁] at outcome₂
  cases outcome₂

end ApiInventory.Batch

import ApiInventory.Proofs.Batch.Layout
import ApiInventory.Proofs.Batch.OpenDesk

/-!
# Records are written once

Over any history of items and runs, files stay as they are, and a file appears where an item has
recorded something and nowhere else. The one exception is the checkpoint: it is saved time and
again, and nothing keeps its path from leading into the directory of the records.

`WriteOnce` says this about a stretch of a history, with the items tried in it. It holds of an
item (`Item.writeOnce`), of a saved checkpoint, and of stretches one after the other
(`WriteOnce.append`), and so of whole runs.
-/

namespace ApiInventory.Batch

open Files (FileTree FileError Place)

/-- What is seen of an item that is tried. -/
structure Tried where
  package : String
  /-- What the index answers when it is asked for the version. -/
  resolved : Reply (Option String)
  reply : Reply Outcome

/-- There is a regular file at a place. -/
def HasFile (t : FileTree) (q : Place) : Prop := ∃ content, t.get? q = some (.file content)

/-- The file at a place can be read as a table of so many symbols, and not of none. -/
def HoldsTable (t : FileTree) (q : Place) (symbols : Nat) : Prop :=
  ∃ content table, t.get? q = some (.file content) ∧
    (Text.decode? content).bind SymbolTable.parse? = some table ∧
    table.isEmpty = false ∧ table.size = symbols

/-- A stretch of a history in which records are written once, in a directory and nowhere else.
It speaks of places that are clear of the checkpoint. -/
structure WriteOnce (S : Place) (tried : List Tried) (clear : Place → Prop) (t t' : FileTree) :
    Prop where
  /-- Files stay as they are. -/
  kept : ∀ q content, clear q → t.get? q = some (.file content) → t'.get? q = some (.file content)
  /-- A file appears where an item has recorded something, and nowhere else. -/
  appears_iff : ∀ q, clear q → ((¬HasFile t q ∧ HasFile t' q) ↔
    ∃ x ∈ tried, ∃ record symbols, x.reply = .answer (.recorded record symbols) ∧
      q = S ++ [record])
  /-- What an item has recorded bears the name of its package and of the version it came to, and
  holds the symbols. -/
  recorded : ∀ x ∈ tried, ∀ record symbols, x.reply = .answer (.recorded record symbols) →
    isSafePart x.package = true ∧
    (∃ version, x.resolved = .answer (some version) ∧
      record = recordName x.package (versionToken version)) ∧
    (clear (S ++ [record]) → HoldsTable t' (S ++ [record]) symbols)
  /-- No item records what another one has recorded. -/
  once : tried.Pairwise fun x y => ∀ record m n, x.reply = .answer (.recorded record m) →
    y.reply = .answer (.recorded record n) → ¬clear (S ++ [record])

namespace WriteOnce

variable {S : Place} {xs ys : List Tried} {clear clear' : Place → Prop} {t t₁ t' : FileTree}

/-- Nothing is recorded while files stay as they are. -/
theorem of_files_eq (nothing : ∀ x ∈ xs, x.reply.RecordsNothing) (same : ∀ q, clear q →
    ∀ content, t'.get? q = some (.file content) ↔ t.get? q = some (.file content)) :
    WriteOnce S xs clear t t' where
  kept q content isClear := (same q isClear content).mpr
  appears_iff q isClear := by
    have none : ¬∃ x ∈ xs, ∃ record symbols, x.reply = .answer (.recorded record symbols) ∧
        q = S ++ [record] := by
      rintro ⟨x, member, record, symbols, reply, _⟩
      exact nothing x member record symbols reply
    simp only [HasFile, same q isClear, none, not_and_self]
  recorded x member record symbols reply := absurd reply (nothing x member record symbols)
  once := List.pairwise_of_forall_mem_list fun x member _ _ record m _ reply =>
    absurd reply (nothing x member record m)

/-- A record is a new file, and no other entry changes. -/
theorem of_new_file {x : Tried} {version : String} {symbols : Nat}
    (safe : isSafePart x.package = true) (answer : x.resolved = .answer (some version))
    (reply : x.reply =
      .answer (.recorded (recordName x.package (versionToken version)) symbols))
    (missing : ¬HasFile t (S ++ [recordName x.package (versionToken version)]))
    (others : ∀ q, q ≠ S ++ [recordName x.package (versionToken version)] →
      t'.get? q = t.get? q)
    (holds : HoldsTable t' (S ++ [recordName x.package (versionToken version)]) symbols) :
    WriteOnce S [x] clear t t' where
  kept q content _ entry := by
    have other : q ≠ S ++ [recordName x.package (versionToken version)] := by
      rintro rfl
      exact missing ⟨content, entry⟩
    rw [others q other, entry]
  appears_iff q _ := by
    constructor
    · rintro ⟨noFile, content, entry⟩
      by_cases here : q = S ++ [recordName x.package (versionToken version)]
      · exact ⟨x, List.mem_singleton.mpr rfl, _, symbols, reply, here⟩
      · rw [others q here] at entry
        exact absurd ⟨content, entry⟩ noFile
    · rintro ⟨y, member, record, symbols', reply', rfl⟩
      obtain rfl := List.mem_singleton.mp member
      obtain ⟨rfl, _⟩ := Outcome.recorded.inj (Reply.answer.inj (reply'.symm.trans reply))
      obtain ⟨content, _, entry, _⟩ := holds
      exact ⟨missing, content, entry⟩
  recorded y member record symbols' reply' := by
    obtain rfl := List.mem_singleton.mp member
    obtain ⟨rfl, rfl⟩ := Outcome.recorded.inj (Reply.answer.inj (reply'.symm.trans reply))
    exact ⟨safe, ⟨version, answer, rfl⟩, fun _ => holds⟩
  once := List.pairwise_singleton _ x

theorem mono (h : WriteOnce S xs clear t t') (fewer : ∀ q, clear' q → clear q) :
    WriteOnce S xs clear' t t' where
  kept q content isClear := h.kept q content (fewer q isClear)
  appears_iff q isClear := h.appears_iff q (fewer q isClear)
  recorded x member record symbols reply := by
    obtain ⟨safe, version, holds⟩ := h.recorded x member record symbols reply
    exact ⟨safe, version, fun isClear => holds (fewer _ isClear)⟩
  once := h.once.imp fun other record m n first second isClear =>
    other record m n first second (fewer _ isClear)

theorem hasFile (h : WriteOnce S xs clear t t') {q : Place} (isClear : clear q)
    (there : HasFile t q) : HasFile t' q := by
  obtain ⟨content, entry⟩ := there
  exact ⟨content, h.kept q content isClear entry⟩

/-- The files are those that were there and those that were recorded. -/
theorem hasFile_iff (h : WriteOnce S xs clear t t') {q : Place} (isClear : clear q) :
    HasFile t' q ↔ HasFile t q ∨
      ∃ x ∈ xs, ∃ record symbols, x.reply = .answer (.recorded record symbols) ∧
        q = S ++ [record] := by
  rw [← h.appears_iff q isClear]
  by_cases there : HasFile t q
  · simp [there, h.hasFile isClear there]
  · simp [there]

/-- What holds of two stretches holds of both together. -/
theorem append (first : WriteOnce S xs clear t t₁) (second : WriteOnce S ys clear t₁ t') :
    WriteOnce S (xs ++ ys) clear t t' where
  kept q content isClear entry :=
    second.kept q content isClear (first.kept q content isClear entry)
  appears_iff q isClear := by
    have before := first.appears_iff q isClear
    have after := second.appears_iff q isClear
    simp only [List.mem_append, or_and_right, exists_or, ← before, ← after]
    constructor
    · rintro ⟨missing, there⟩
      by_cases between : HasFile t₁ q
      · exact .inl ⟨missing, between⟩
      · exact .inr ⟨between, there⟩
    · rintro (⟨missing, between⟩ | ⟨missing, there⟩)
      · exact ⟨missing, second.hasFile isClear between⟩
      · exact ⟨fun earlier => missing (first.hasFile isClear earlier), there⟩
  recorded x member record symbols reply := by
    rcases List.mem_append.mp member with member | member
    · obtain ⟨safe, version, holds⟩ := first.recorded x member record symbols reply
      refine ⟨safe, version, fun isClear => ?_⟩
      obtain ⟨content, table, entry, rest⟩ := holds isClear
      exact ⟨content, table, second.kept _ content isClear entry, rest⟩
    · exact second.recorded x member record symbols reply
  once := by
    refine List.pairwise_append.mpr ⟨first.once, second.once, ?_⟩
    intro x inFirst y inSecond record m n earlier later isClear
    obtain ⟨_, _, holds⟩ := first.recorded x inFirst record m earlier
    obtain ⟨content, _, entry, _⟩ := holds isClear
    have missing := ((second.appears_iff _ isClear).mpr ⟨y, inSecond, record, n, later, rfl⟩).1
    exact missing ⟨content, entry⟩

end WriteOnce

section Item

variable {σ : Type} {d : Desk} {S : Place} {t t₀ : FileTree}
variable {package token : String} {table : SymbolTable} {accepts : Bool}

/-- The content of a record can be read as the table it was written from. -/
theorem holdsTable_body {q : Place} (entry : t.get? q = some (.file (RecordStore.body table)))
    (nonempty : table.isEmpty = false) : HoldsTable t q table.size := by
  refine ⟨_, table, entry, ?_, nonempty, rfl⟩
  rw [RecordStore.body, Text.decode?_encode, Option.bind_some, SymbolTable.parse?_pretty]

/-- An item, with any reply that tells of the same records. -/
theorem Item.writeOnce (s : Services σ) (package : String) (w : Progress σ)
    (found : t₀.find d.directory d.store.folder = .ok (S, .directory))
    (evolution : t₀.Evolves (fun _ => True) w.tree) {reply : Reply Outcome}
    (same : ∀ record symbols, reply = .answer (.recorded record symbols) ↔
      (process s d package w).2 = .answer (.recorded record symbols)) :
    WriteOnce S [⟨package, (s.resolve package w.outside).1, reply⟩] (fun _ => True) w.tree
      (process s d package w).1.tree := by
  have quiet (nothing : (process s d package w).2.RecordsNothing) :
      ∀ x ∈ [Tried.mk package (s.resolve package w.outside).1 reply], x.reply.RecordsNothing := by
    intro x member record symbols told
    obtain rfl := List.mem_singleton.mp member
    exact nothing record symbols ((same record symbols).mp told)
  rcases process_cases s d package w with
    ⟨unchanged, nothing⟩ | ⟨version, safe, answer, unknown, recording⟩
  · exact .of_files_eq (quiet nothing) (by simp [unchanged])
  · generalize process s d package w = result at same quiet recording ⊢
    obtain ⟨after, outcome⟩ := result
    obtain ⟨tree, outside, events⟩ := after
    dsimp only at same quiet recording ⊢
    cases recording with
    | idle nothing => exact .of_files_eq (quiet nothing) (by simp)
    | unwritten failed =>
        refine .of_files_eq (quiet nofun) fun q _ content =>
          FileTree.replaceFile_files fun done => ?_
        exact absurd (failed.symm.trans done) nofun
    | @recorded table accepted nonempty written =>
        have found := RecordStore.find_of_write found evolution written
        obtain ⟨unlocked, noDirectory, alike⟩ := RecordStore.write_of_ok found written
        have ne := FileTree.ne_nil_of_get?_ne_directory noDirectory
        have entry := fun q => (alike.get? q).trans (FileTree.get?_set _ _ q _ ne)
        refine .of_new_file safe answer ((same _ _).mpr rfl) ?_ ?_ ?_
        · rintro ⟨content, there⟩
          rw [RecordStore.has_of_get? found unlocked there] at unknown
          cases unknown
        · intro q other
          rw [entry q, if_neg other]
        · exact holdsTable_body (by rw [entry, if_pos rfl]) nonempty

end Item

/-! ## Runs -/

namespace Turn

variable {σ : Type}

/-- A turn saves the checkpoint at a place. -/
def Saves (d : Desk) (turn : Turn σ) (q : Place) : Prop :=
  turn.saved = .ok () ∧ CheckpointGoesTo d turn.attempted.tree q

def tried (s : Services σ) (turn : Turn σ) : Tried :=
  ⟨turn.package, (s.resolve turn.package turn.before.outside).1, .answer turn.outcome⟩

end Turn

section Run

variable {σ : Type} {s : Services σ} {d : Desk} {S : Place} {t₀ : FileTree}

theorem takeTurn_writeOnce (package : String) (position : Nat) (w : Progress σ)
    (found : t₀.find d.directory d.store.folder = .ok (S, .directory))
    (evolution : t₀.Evolves (fun _ => True) w.tree) :
    WriteOnce S [(takeTurn s d package position w).tried s]
      (fun q => ¬(takeTurn s d package position w).Saves d q) w.tree
      (takeTurn s d package position w).after.tree := by
  have same : ∀ record symbols,
      Reply.answer (Item.attempt s d package w).2 = .answer (.recorded record symbols) ↔
        (Item.process s d package w).2 = .answer (.recorded record symbols) := by
    intro record symbols
    rw [← Item.attempt_eq_recorded_iff, Reply.answer.injEq]
  have item := Item.writeOnce s package w found evolution same
  rw [← Item.attempt_tree] at item
  have save : WriteOnce S [] (fun q => ¬(takeTurn s d package position w).Saves d q)
      (Item.attempt s d package w).1.tree (takeTurn s d package position w).after.tree := by
    refine .of_files_eq nofun fun q elsewhere content => ?_
    rw [takeTurn_after_tree]
    exact FileTree.replaceFile_files fun done goes => elsewhere ⟨done, goes⟩
  exact (item.mono fun _ _ => trivial).append save

/-- A turn that records nothing makes no file but the checkpoint. -/
theorem hasFile_after_turn {limits : Limits} {packages : List String} {w : Progress σ}
    {turn : Turn σ} {q : Place} (member : turn ∈ turns s d limits packages w)
    (found : turn.before.tree.find d.directory d.store.folder = .ok (S, .directory))
    (nothing : (Reply.answer turn.outcome).RecordsNothing) (elsewhere : ¬turn.Saves d q) :
    HasFile turn.after.tree q ↔ HasFile turn.before.tree q := by
  have written := takeTurn_writeOnce (s := s) turn.package turn.position turn.before found
    (.refl _ _)
  rw [← eq_takeTurn_of_mem_turns member] at written
  rw [written.hasFile_iff elsewhere, or_iff_left]
  rintro ⟨x, among, record, symbols, reply, _⟩
  rw [List.mem_singleton.mp among] at reply
  exact nothing record symbols reply

theorem Course.writeOnce {deadline : Nat} {items : List (String × Nat)} {r : Reached}
    {w : Progress σ} {turns : List (Turn σ)} {out : Progress σ × Except RunError Reached}
    (h : Course s d deadline items r w turns out)
    (found : t₀.find d.directory d.store.folder = .ok (S, .directory))
    (evolution : t₀.Evolves (fun _ => True) w.tree) :
    WriteOnce S (turns.map (·.tried s)) (fun q => ∀ turn ∈ turns, ¬turn.Saves d q) w.tree
      out.1.tree := by
  induction h with
  | through | late => exact .of_files_eq nofun fun _ _ _ => Iff.rfl
  | @failed package position _ _ w =>
      have turn := takeTurn_writeOnce (s := s) package position (w.timed s) found evolution
      exact turn.mono fun q none => none _ (by simp)
  | @turn package position _ _ w _ _ _ _ _ ih =>
      have turn := takeTurn_writeOnce (s := s) package position (w.timed s) found evolution
      have onward := ih (evolution.trans (takeTurn_evolves s d package position (w.timed s)).2)
      refine (turn.mono fun q none => none _ (by simp)).append ?_
      exact onward.mono fun q none x member => none x (List.mem_cons_of_mem _ member)

/-- A run saves the checkpoint at a place: after an item, or when it comes to the end of the
list. -/
def RunSaves (s : Services σ) (d : Desk) (limits : Limits) (packages : List String)
    (w : Progress σ) (q : Place) : Prop :=
  (∃ turn ∈ turns s d limits packages w, turn.Saves d q) ∨
    (∃ summary, (run s d limits packages w).2 = .ok summary ∧ summary.passCompleted = true) ∧
      CheckpointGoesTo d (treeAfter w.tree (turns s d limits packages w)) q

theorem run_writeOnce (limits : Limits) (packages : List String) (w : Progress σ)
    (found : t₀.find d.directory d.store.folder = .ok (S, .directory))
    (evolution : t₀.Evolves (fun _ => True) w.tree) :
    WriteOnce S ((turns s d limits packages w).map (·.tried s))
      (fun q => ¬RunSaves s d limits packages w q) w.tree
      (run s d limits packages w).1.tree := by
  have turnsOnly : ∀ q, ¬RunSaves s d limits packages w q →
      ∀ turn ∈ turns s d limits packages w, ¬turn.Saves d q :=
    fun q none turn member saves => none (.inl ⟨turn, member, saves⟩)
  rw [← tree_startPosition d w] at evolution
  rcases run_cases s d limits packages w with ⟨w', e, loop, whole⟩ | ⟨w', r, loop, whole⟩
  · have written := (loop.writeOnce found evolution).mono turnsOnly
    rw [tree_startPosition] at written
    rwa [whole]
  · have written := (loop.writeOnce found evolution).mono turnsOnly
    have tree := loop.tree_eq
    rw [tree_startPosition] at tree written
    have finished : WriteOnce S [] (fun q => ¬RunSaves s d limits packages w q) w'.tree
        (run s d limits packages w).1.tree := by
      refine .of_files_eq nofun fun q elsewhere content => ?_
      by_cases inside : r.next < packages.length
      · rw [whole, finish_inside inside]
      · obtain ⟨saved, completed, _⟩ :=
          finish_through s d (startPosition d w).1 w' (Nat.le_of_not_lt inside)
        rw [← whole] at saved completed
        rw [saved]
        exact FileTree.replaceFile_files fun done goes =>
          elsewhere (.inr ⟨⟨_, completed done, rfl⟩, by rwa [← tree]⟩)
    simpa using written.append finished

end Run

/-! ## Histories -/

/-- What is done at a desk: an item, or a run over a list. The services and how things stand
outside can be others each time. -/
inductive Operation where
  | item {σ : Type} (s : Services σ) (outside : σ) (package : String)
  | run {σ : Type} (s : Services σ) (outside : σ) (limits : Limits) (packages : List String)

namespace Operation

variable (d : Desk) (t : FileTree)

/-- The tree that an operation leaves. -/
def after : Operation → FileTree
  | .item s outside package => (Item.process s d package ⟨t, outside, []⟩).1.tree
  | .run s outside limits packages => (Batch.run s d limits packages ⟨t, outside, []⟩).1.tree

/-- The items that an operation tries. -/
def tried : Operation → List Tried
  | .item s outside package =>
    [⟨package, (s.resolve package outside).1, (Item.process s d package ⟨t, outside, []⟩).2⟩]
  | .run s outside limits packages =>
    (turns s d limits packages ⟨t, outside, []⟩).map (·.tried s)

/-- An operation saves the checkpoint at a place. -/
def Saves : Operation → Place → Prop
  | .item .., _ => False
  | .run s outside limits packages, q => RunSaves s d limits packages ⟨t, outside, []⟩ q

variable {d t}

theorem evolves (operation : Operation) : t.Evolves (fun _ => True) (operation.after d t) := by
  cases operation with
  | item s outside package => exact Item.process_evolves s d package ⟨t, outside, []⟩
  | run s outside limits packages => exact run_evolves s d limits packages ⟨t, outside, []⟩

end Operation

/-- The tree that operations leave one after the other. -/
def afterAll (d : Desk) (t : FileTree) (operations : List Operation) : FileTree :=
  operations.foldl (fun t operation => operation.after d t) t

theorem afterAll_evolves (d : Desk) (t : FileTree) (operations : List Operation) :
    t.Evolves (fun _ => True) (afterAll d t operations) := by
  induction operations generalizing t with
  | nil => exact .refl _ t
  | cons operation rest ih => exact operation.evolves.trans (ih _)

/-- Records are written once. Whatever was done before at a desk whose store is there, an
operation keeps all files, except the one that it saves the checkpoint in, and makes none but
the records that its items tell of. -/
theorem writeOnce_of_history {d : Desk} {S : Place} {t : FileTree}
    (found : t.find d.directory d.store.folder = .ok (S, .directory))
    (earlier : List Operation) (operation : Operation) :
    WriteOnce S (operation.tried d (afterAll d t earlier))
      (fun q => ¬operation.Saves d (afterAll d t earlier) q) (afterAll d t earlier)
      (operation.after d (afterAll d t earlier)) := by
  have evolution := afterAll_evolves d t earlier
  cases operation with
  | item s outside package =>
      have item := Item.writeOnce s package ⟨_, outside, []⟩ found evolution fun _ _ => Iff.rfl
      exact item.mono fun _ _ => trivial
  | run s outside limits packages =>
      exact run_writeOnce limits packages ⟨_, outside, []⟩ found evolution

/-- When a package is recorded and a run comes over it and another one, the first is known and the
second is recorded. -/
theorem tried_after_class {name : String} {t : FileTree}
    (word : Source.Vocabulary.isWord name = true) (unknown : name ∉ Source.grammar.literals)
    (gained : (sampleTree.set (["db"] ++ [recordName "a" (versionToken "1")])
      (.file (RecordStore.body (classTable name)))).Alike t) :
    ((Operation.run (classServices name) () ⟨2, 1⟩ ["a", "b"]).tried sampleDesk t).map Tried.reply =
      [.answer (.known (versionToken "1")),
        .answer (.recorded (recordName "b" (versionToken "1")) 1)] := by
  have missing (record : String) : sampleTree.get? (["db"] ++ [record]) = none := by
    simp [sampleTree, FileTree.get?, FileTree.lookup_cons_if]
  have entry (q : Place) := (gained.get? q).trans (FileTree.get?_set sampleTree _ q _ (by simp))
  have isOpen : sampleDesk.Open t ["db"] ["at"] :=
    (sampleDesk_open.set (by rw [missing]; simp)).alike gained
  have start : told sampleDesk t = 0 := by
    have kept := told_set_missing (d := sampleDesk) (missing (recordName "a" (versionToken "1")))
      (RecordStore.position?_body (classTable name))
    have same := congrArg Prod.fst (Checkpoint.load_congr (gained.read [] "at"))
    exact same.trans (kept.trans (by cbv))
  obtain ⟨one, two, both, first, second⟩ : ∃ one two,
      turns (classServices name) sampleDesk ⟨2, 1⟩ ["a", "b"] ⟨t, (), []⟩ = [one, two] ∧
        one.package = "a" ∧ two.package = "b" := by
    have packages : (turns (classServices name) sampleDesk ⟨2, 1⟩ ["a", "b"] ⟨t, (), []⟩).map
        (·.package) = ["a", "b"] :=
      isOpen.packages_turns (fun _ => rfl) start (by decide) fun _ => Nat.one_pos
    simpa [List.map_eq_cons_iff] using packages
  have ofOne : one ∈ turns (classServices name) sampleDesk ⟨2, 1⟩ ["a", "b"] ⟨t, (), []⟩ := by
    simp [both]
  have ofTwo : two ∈ turns (classServices name) sampleDesk ⟨2, 1⟩ ["a", "b"] ⟨t, (), []⟩ := by
    simp [both]
  have openOne := Desk.Open.before_turns (fun _ => rfl) isOpen one ofOne
  have openTwo := Desk.Open.before_turns (fun _ => rfl) isOpen two ofTwo
  have chain := turns_chain (classServices name) sampleDesk ⟨2, 1⟩ ["a", "b"] ⟨t, (), []⟩
  rw [both] at chain
  have known : one.outcome = .known (versionToken "1") := by
    have known : sampleDesk.store.has one.before.tree [] "a" (versionToken "1") = true := by
      refine openOne.has_iff.mpr ⟨RecordStore.body (classTable name), ?_⟩
      rw [chain.before_eq, entry, if_pos rfl]
    rw [openOne.outcome_class word unknown ofOne (by rw [first]; decide), first]
    exact if_pos known
  have nothing : ¬HasFile two.before.tree (["db"] ++ [recordName "b" (versionToken "1")]) := by
    have others : recordName "b" (versionToken "1") ≠ recordName "a" (versionToken "1") := by cbv
    have elsewhere : ¬one.Saves sampleDesk (["db"] ++ [recordName "b" (versionToken "1")]) :=
      fun saves => by simpa using locate_sampleDesk saves.2
    have silent : (Reply.answer one.outcome).RecordsNothing := by
      intro record symbols same
      rw [known] at same
      cases same
    rw [chain.onward.before_eq, hasFile_after_turn ofOne openOne.store silent elsewhere,
      chain.before_eq]
    rintro ⟨content, before⟩
    rw [entry, if_neg (by simp [others]), missing] at before
    cases before
  have recorded : two.outcome = .recorded (recordName "b" (versionToken "1")) 1 := by
    rw [openTwo.outcome_class word unknown ofTwo (by rw [second]; decide), second]
    exact if_neg fun known => nothing (openTwo.has_iff.mp known)
  rw [Operation.tried, both]
  simp [Turn.tried, known, recorded]

theorem writeOnce_of_run_after_item :
    ∃ t, t = afterAll sampleDesk sampleTree [.item (classServices "X") () "a"] ∧
      sampleTree.find sampleDesk.directory sampleDesk.store.folder = .ok (["db"], .directory) ∧
      HasFile t ["db", "a_v000100000000.json"] ∧
      ((Operation.run (classServices "X") () ⟨2, 1⟩ ["a", "b"]).tried sampleDesk t).map
          Tried.reply =
        [.answer (.known "v000100000000"), .answer (.recorded "b_v000100000000.json" 1)] ∧
      WriteOnce ["db"]
        ((Operation.run (classServices "X") () ⟨2, 1⟩ ["a", "b"]).tried sampleDesk t)
        (fun q => ¬(Operation.run (classServices "X") () ⟨2, 1⟩ ["a", "b"]).Saves sampleDesk t q) t
        ((Operation.run (classServices "X") () ⟨2, 1⟩ ["a", "b"]).after sampleDesk t) := by
  have word : Source.Vocabulary.isWord "X" = true := by decide
  have unknown : "X" ∉ Source.grammar.literals := by decide +kernel
  have token : versionToken "1" = "v000100000000" := by cbv
  have first : recordName "a" (versionToken "1") = "a_v000100000000.json" := by cbv
  have second : recordName "b" (versionToken "1") = "b_v000100000000.json" := by cbv
  have found : sampleTree.find sampleDesk.directory sampleDesk.store.folder =
      .ok (["db"], .directory) := sampleDesk_open.store
  have ends : Item.Ends (classServices "X") sampleDesk ["db"] "a" ⟨sampleTree, (), []⟩ _ :=
    sampleDesk_open.ends_class word unknown (by decide) (has_sampleTree _ _ _ _)
  have tried := tried_after_class word unknown ends.gains
  have record := (ends.gains.get? _).trans
    (FileTree.get?_set sampleTree _ (["db"] ++ [recordName "a" (versionToken "1")]) _ (by simp))
  rw [if_pos rfl, first] at record
  rw [second, token] at tried
  exact ⟨_, rfl, found, ⟨_, record⟩, tried,
    writeOnce_of_history found [.item (classServices "X") () "a"]
      (.run (classServices "X") () ⟨2, 1⟩ ["a", "b"])⟩

/-- The checkpoint is an exception: in the store, it is a file there that no item tells of. -/
theorem not_writeOnce_of_checkpoint_in_store :
    sampleTree.find [] (RecordStore.mk "db").folder = .ok (["db"], .directory) ∧
      ¬WriteOnce ["db"] ((Operation.run noServices () ⟨1, 1⟩ []).tried
          ⟨[], ⟨"db"⟩, "db/p", "/"⟩ sampleTree) (fun _ => True) sampleTree
        ((Operation.run noServices () ⟨1, 1⟩ []).after ⟨[], ⟨"db"⟩, "db/p", "/"⟩ sampleTree) := by
  have before : sampleTree.get? ["db", "p"] = none := by decide
  have after : ((Operation.run noServices () ⟨1, 1⟩ []).after ⟨[], ⟨"db"⟩, "db/p", "/"⟩
      sampleTree).get? ["db", "p"] = some (.file (Checkpoint.content 0)) := by cbv
  refine ⟨by cbv, fun written => ?_⟩
  have missing : ¬HasFile sampleTree ["db", "p"] := by
    rintro ⟨content, entry⟩
    rw [before] at entry
    cases entry
  have appears := (written.appears_iff ["db", "p"] trivial).mp ⟨missing, _, after⟩
  have none : (Operation.run noServices () ⟨1, 1⟩ []).tried ⟨[], ⟨"db"⟩, "db/p", "/"⟩
      sampleTree = [] := by cbv
  rw [none] at appears
  simp at appears

end ApiInventory.Batch

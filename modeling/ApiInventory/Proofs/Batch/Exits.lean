import ApiInventory.Proofs.Batch.Calls
import ApiInventory.Proofs.Batch.Downloads
import ApiInventory.Proofs.Batch.Items
import ApiInventory.Proofs.Batch.Records
import ApiInventory.Proofs.Batch.Turns

/-!
# The ways an item ends

`Exit` lists every way in which an item can end: what has to be the case, and then which services
are asked, what the reply is and which record the store gains.

`Seeks`, `Obtains` and `Opens` say how far an item gets before that: to a download, to an archive,
to a table of symbols.
-/

namespace ApiInventory.Batch

open Files (FileTree Place FileError)

variable {σ : Type}

/-- What services do when an item asks for a download. -/
def Services.download (s : Services σ) (package version : String) (o : σ) :
    Reply (List String) × FileTree × σ :=
  s.fetch package version WorkArea.new (s.resolve package o).2

/-- What services do when an item has an archive unpacked that it has downloaded. -/
def Services.opening (s : Services σ) (package version archive : String) (o : σ) :
    Reply (Except Archive.Failure Unit) × FileTree × σ :=
  s.unpack archive (s.download package version o).2.1 (s.download package version o).2.2

section Steps

variable (s : Services σ) (d : Desk) (package : String) (w : Progress σ)

/-- The item asks for a download. -/
structure Seeks (version : String) : Prop where
  safe : isSafePart package = true
  resolved : (s.resolve package w.outside).1 = .answer (some version)
  unknown : d.store.has w.tree d.directory package (versionToken version) = false
  scratch : w.tree.isDirectory d.directory d.temporary = true

/-- The item has an archive unpacked. -/
structure Obtains (version archive : String) : Prop extends Seeks s d package w version where
  obtained : ∃ files, (s.download package version w.outside).1 = .answer files ∧
    Foremost files archive

/-- The item has a table to record. -/
structure Opens (version archive : String) (table : SymbolTable) : Prop
    extends Obtains s d package w version archive where
  opened : (s.opening package version archive w.outside).1 = .answer (.ok ())
  table_eq : (Source.extractDirectory (s.opening package version archive w.outside).2.1 []
    WorkArea.unpacked).1 = table

end Steps

/-- What an item asks for, its reply, and the name and content of the record that its store
gains. -/
structure Account where
  calls : List Call
  reply : Reply Outcome
  gained : Option (String × ByteArray)

/-- The ways an item ends whose store is in the place `S`. -/
inductive Exit (s : Services σ) (d : Desk) (S : Place) (package : String) (w : Progress σ) :
    Account → Prop
  | unsafeName (bad : isSafePart package = false) :
      Exit s d S package w ⟨[], .answer (.skipped .unsafeName), none⟩
  | resolveBroke {message : Option String} (safe : isSafePart package = true)
      (broke : (s.resolve package w.outside).1 = .breakdown message) :
      Exit s d S package w ⟨[.resolve package], .breakdown message, none⟩
  | unresolved (safe : isSafePart package = true)
      (missing : (s.resolve package w.outside).1 = .answer none) :
      Exit s d S package w ⟨[.resolve package], .answer (.skipped .unresolved), none⟩
  | known {v : String} (safe : isSafePart package = true)
      (resolved : (s.resolve package w.outside).1 = .answer (some v))
      (known : d.store.has w.tree d.directory package (versionToken v) = true) :
      Exit s d S package w ⟨[.resolve package], .answer (.known (versionToken v)), none⟩
  | noScratch {v : String} (safe : isSafePart package = true)
      (resolved : (s.resolve package w.outside).1 = .answer (some v))
      (unknown : d.store.has w.tree d.directory package (versionToken v) = false)
      (missing : w.tree.isDirectory d.directory d.temporary = false) :
      Exit s d S package w ⟨[.resolve package],
        .answer (.skipped (.ofFailure FileError.notFound.message ["create work dir"])), none⟩
  | fetchBroke {v : String} {message : Option String} (seeks : Seeks s d package w v)
      (broke : (s.download package v w.outside).1 = .breakdown message) :
      Exit s d S package w ⟨[.resolve package, .fetch package v], .breakdown message, none⟩
  | notDownloaded {v : String} (seeks : Seeks s d package w v)
      (nothing : (s.download package v w.outside).1 = .answer []) :
      Exit s d S package w
        ⟨[.resolve package, .fetch package v], .answer (.skipped .notDownloaded), none⟩
  | unpackBroke {v archive : String} {message : Option String}
      (obtains : Obtains s d package w v archive)
      (broke : (s.opening package v archive w.outside).1 = .breakdown message) :
      Exit s d S package w
        ⟨[.resolve package, .fetch package v, .unpack archive], .breakdown message, none⟩
  | notUnpacked {v archive : String} {failure : Archive.Failure}
      (obtains : Obtains s d package w v archive)
      (failed : (s.opening package v archive w.outside).1 = .answer (.error failure)) :
      Exit s d S package w ⟨[.resolve package, .fetch package v, .unpack archive],
        .answer (.skipped (.notUnpacked failure.message)), none⟩
  | nothingFound {v archive : String} {table : SymbolTable}
      (opens : Opens s d package w v archive table) (nothing : table.isEmpty = true) :
      Exit s d S package w ⟨[.resolve package, .fetch package v, .unpack archive],
        .answer (.skipped .nothingFound), none⟩
  | unwritten {v archive : String} {table : SymbolTable} {e : FileError}
      (opens : Opens s d package w v archive table) (some : table.isEmpty = false)
      (obstacle : d.store.obstacle? w.tree S package (versionToken v)
        (s.accepts (s.opening package v archive w.outside).2.2).1 = .some e) :
      Exit s d S package w ⟨[.resolve package, .fetch package v, .unpack archive],
        .answer (.skipped (.ofFailure e.message [])), none⟩
  | recorded {v archive : String} {table : SymbolTable}
      (opens : Opens s d package w v archive table) (some : table.isEmpty = false)
      (noObstacle : d.store.obstacle? w.tree S package (versionToken v)
        (s.accepts (s.opening package v archive w.outside).2.2).1 = none) :
      Exit s d S package w ⟨[.resolve package, .fetch package v, .unpack archive],
        .answer (.recorded (recordName package (versionToken v)) table.size),
        .some (recordName package (versionToken v), RecordStore.body table)⟩

/-- A tree in which nothing has changed, but that the store in the place `S` has gained a file. -/
def Gains (S : Place) (t : FileTree) : Option (String × ByteArray) → FileTree → Prop
  | none, t' => t.Alike t'
  | some (name, content), t' => (t.set (S ++ [name]) (.file content)).Alike t'

/-! ## How far an item gets -/

namespace Item

variable {s : Services σ} {d : Desk} {package token : String} {w : Progress σ}
variable {v archive : String} {table : SymbolTable}

@[simp] theorem outside_noteUnsortable :
    (noteUnsortable package v token w).outside = w.outside := by
  unfold noteUnsortable
  split <;> rfl

theorem process_of_unsafe (bad : isSafePart package = false) :
    process s d package w = (w, .answer (.skipped .unsafeName)) := by
  rw [process, if_neg (by simp [bad])]

theorem process_of_breakdown {message : Option String} (safe : isSafePart package = true)
    (broke : (s.resolve package w.outside).1 = .breakdown message) :
    ∃ w' : Progress σ, w'.tree = w.tree ∧ w'.outside = (s.resolve package w.outside).2 ∧
      process s d package w = (w', .breakdown message) :=
  ⟨{ w.note (.resolving package) with outside := (s.resolve package w.outside).2 }, rfl, rfl, by
    simp only [process, Progress.outside_note, if_pos safe, broke]⟩

theorem process_of_unresolved (safe : isSafePart package = true)
    (missing : (s.resolve package w.outside).1 = .answer none) :
    ∃ w' : Progress σ, w'.tree = w.tree ∧ w'.outside = (s.resolve package w.outside).2 ∧
      process s d package w = (w', .answer (.skipped .unresolved)) :=
  ⟨{ w.note (.resolving package) with outside := (s.resolve package w.outside).2 }, rfl, rfl, by
    simp only [process, Progress.outside_note, if_pos safe, missing]⟩

theorem process_of_resolved (safe : isSafePart package = true)
    (resolved : (s.resolve package w.outside).1 = .answer (some v)) :
    ∃ w' : Progress σ, w'.tree = w.tree ∧ w'.outside = (s.resolve package w.outside).2 ∧
      process s d package w = version s d package v w' :=
  ⟨{ w.note (.resolving package) with outside := (s.resolve package w.outside).2 }, rfl, rfl, by
    simp only [process, Progress.outside_note, if_pos safe, resolved]⟩

theorem version_of_known
    (known : d.store.has w.tree d.directory package (versionToken v) = true) :
    ∃ w' : Progress σ, w'.tree = w.tree ∧ w'.outside = w.outside ∧
      version s d package v w = (w', .answer (.known (versionToken v))) :=
  ⟨noteUnsortable package v (versionToken v) w, by simp, by simp, by
    simp only [version, tree_noteUnsortable, known, if_true]⟩

theorem version_of_noScratch
    (unknown : d.store.has w.tree d.directory package (versionToken v) = false)
    (missing : w.tree.isDirectory d.directory d.temporary = false) :
    ∃ w' : Progress σ, w'.tree = w.tree ∧ w'.outside = w.outside ∧
      version s d package v w = (w', .answer (.skipped
        (.ofFailure FileError.notFound.message ["create work dir"]))) :=
  ⟨noteUnsortable package v (versionToken v) w, by simp, by simp, by
    simp only [version, tree_noteUnsortable, unknown, missing, Bool.false_eq_true, if_false]⟩

theorem version_of_scratch
    (unknown : d.store.has w.tree d.directory package (versionToken v) = false)
    (scratch : w.tree.isDirectory d.directory d.temporary = true) :
    ∃ w' : Progress σ, w'.tree = w.tree ∧ w'.outside = w.outside ∧
      version s d package v w = fetch s d package v (versionToken v) w' :=
  ⟨noteUnsortable package v (versionToken v) w, by simp, by simp, by
    simp only [version, tree_noteUnsortable, unknown, scratch, Bool.false_eq_true, if_false,
      if_true]⟩

theorem fetch_of_breakdown {message : Option String}
    (broke : (s.fetch package v WorkArea.new w.outside).1 = .breakdown message) :
    ∃ w' : Progress σ, w'.tree = w.tree ∧
      w'.outside = (s.fetch package v WorkArea.new w.outside).2.2 ∧
      fetch s d package v token w = (w', .breakdown message) :=
  ⟨{ w.note (.fetching package v) with
      outside := (s.fetch package v WorkArea.new w.outside).2.2 }, rfl, rfl, by
    simp only [fetch, Progress.outside_note, broke]⟩

theorem fetch_of_nothing
    (nothing : (s.fetch package v WorkArea.new w.outside).1 = .answer []) :
    ∃ w' : Progress σ, w'.tree = w.tree ∧
      w'.outside = (s.fetch package v WorkArea.new w.outside).2.2 ∧
      fetch s d package v token w = (w', .answer (.skipped .notDownloaded)) :=
  ⟨{ w.note (.fetching package v) with
      outside := (s.fetch package v WorkArea.new w.outside).2.2 }, rfl, rfl, by
    simp only [fetch, Progress.outside_note, nothing, leastPath?]⟩

theorem fetch_of_files {files : List String}
    (fetched : (s.fetch package v WorkArea.new w.outside).1 = .answer files)
    (foremost : Foremost files archive) :
    ∃ w' : Progress σ, w'.tree = w.tree ∧
      w'.outside = (s.fetch package v WorkArea.new w.outside).2.2 ∧
      fetch s d package v token w = unpack s d package token archive
        (s.fetch package v WorkArea.new w.outside).2.1 w' :=
  ⟨{ w.note (.fetching package v) with
      outside := (s.fetch package v WorkArea.new w.outside).2.2 }, rfl, rfl, by
    simp only [fetch, Progress.outside_note, fetched, leastPath?_eq_some_iff.mpr foremost]⟩

theorem unpack_of_breakdown {area : FileTree} {message : Option String}
    (broke : (s.unpack archive area w.outside).1 = .breakdown message) :
    ∃ w' : Progress σ, w'.tree = w.tree ∧ w'.outside = (s.unpack archive area w.outside).2.2 ∧
      unpack s d package token archive area w = (w', .breakdown message) :=
  ⟨{ w.note (.unpacking package archive) with
      outside := (s.unpack archive area w.outside).2.2 }, rfl, rfl, by
    simp only [unpack, Progress.outside_note, broke]⟩

theorem unpack_of_error {area : FileTree} {failure : Archive.Failure}
    (failed : (s.unpack archive area w.outside).1 = .answer (.error failure)) :
    ∃ w' : Progress σ, w'.tree = w.tree ∧ w'.outside = (s.unpack archive area w.outside).2.2 ∧
      unpack s d package token archive area w =
        (w', .answer (.skipped (.notUnpacked failure.message))) :=
  ⟨{ w.note (.unpacking package archive) with
      outside := (s.unpack archive area w.outside).2.2 }, rfl, rfl, by
    simp only [unpack, Progress.outside_note, failed]⟩

theorem unpack_of_ok {area : FileTree}
    (opened : (s.unpack archive area w.outside).1 = .answer (.ok ())) :
    ∃ w' : Progress σ, w'.tree = w.tree ∧ w'.outside = (s.unpack archive area w.outside).2.2 ∧
      unpack s d package token archive area w =
        Prod.map id Reply.answer (record s d package token (Source.extractDirectory
          (s.unpack archive area w.outside).2.1 [] WorkArea.unpacked).1 w') :=
  ⟨{ w.note (.unpacking package archive) with
      outside := (s.unpack archive area w.outside).2.2 }, rfl, rfl, by
    simp only [unpack, Progress.outside_note, opened]
    rfl⟩

section Record

variable {S : Place} (found : w.tree.find d.directory d.store.folder = .ok (S, .directory))
include found

theorem record_of_obstacle (some : table.isEmpty = false) {e : FileError}
    (obstacle : d.store.obstacle? w.tree S package token
      (s.accepts w.outside).1 = .some e) :
    ∃ w' : Progress σ, w.tree.Alike w'.tree ∧ w'.outside = (s.accepts w.outside).2 ∧
      record s d package token table w =
        (w', .skipped (.ofFailure e.message [])) := by
  have failed : (d.store.write w.tree d.directory package token table
      (s.accepts w.outside).1).result = .error e := by
    rw [RecordStore.result_write found, obstacle]
  refine ⟨{ w with
    tree := (d.store.write w.tree d.directory package token table (s.accepts w.outside).1).tree
    outside := (s.accepts w.outside).2 }, RecordStore.write_of_error found failed, rfl, ?_⟩
  simp only [record, some, failed, Bool.false_eq_true, if_false]

theorem record_of_noObstacle (some : table.isEmpty = false)
    (noObstacle : d.store.obstacle? w.tree S package token
      (s.accepts w.outside).1 = none) :
    ∃ w' : Progress σ, (w.tree.set (S ++ [recordName package token])
        (.file (RecordStore.body table))).Alike w'.tree ∧
      w'.outside = (s.accepts w.outside).2 ∧
      record s d package token table w =
        (w', .recorded (recordName package token) table.size) := by
  have done : (d.store.write w.tree d.directory package token table
      (s.accepts w.outside).1).result = .ok () := by
    rw [RecordStore.result_write found, noObstacle]
  refine ⟨{ w with
    tree := (d.store.write w.tree d.directory package token table (s.accepts w.outside).1).tree
    outside := (s.accepts w.outside).2 }, (RecordStore.write_of_ok found done).2.2, rfl, ?_⟩
  simp only [record, some, done, Bool.false_eq_true, if_false]

end Record

theorem process_of_known_version (safe : isSafePart package = true)
    (resolved : (s.resolve package w.outside).1 = .answer (some v))
    (known : d.store.has w.tree d.directory package (versionToken v) = true) :
    ∃ w' : Progress σ, w'.tree = w.tree ∧ w'.outside = (s.resolve package w.outside).2 ∧
      process s d package w = (w', .answer (.known (versionToken v))) := by
  obtain ⟨w₁, tree₁, outside₁, resolved⟩ := process_of_resolved (d := d) safe resolved
  rw [← tree₁] at known
  obtain ⟨w₂, tree₂, outside₂, ends⟩ := version_of_known (s := s) known
  exact ⟨w₂, tree₂.trans tree₁, outside₂.trans outside₁, resolved.trans ends⟩

theorem process_of_noScratch (safe : isSafePart package = true)
    (resolved : (s.resolve package w.outside).1 = .answer (some v))
    (unknown : d.store.has w.tree d.directory package (versionToken v) = false)
    (missing : w.tree.isDirectory d.directory d.temporary = false) :
    ∃ w' : Progress σ, w'.tree = w.tree ∧ w'.outside = (s.resolve package w.outside).2 ∧
      process s d package w = (w', .answer (.skipped
        (.ofFailure FileError.notFound.message ["create work dir"]))) := by
  obtain ⟨w₁, tree₁, outside₁, resolved⟩ := process_of_resolved (d := d) safe resolved
  rw [← tree₁] at unknown missing
  obtain ⟨w₂, tree₂, outside₂, ends⟩ := version_of_noScratch (s := s) unknown missing
  exact ⟨w₂, tree₂.trans tree₁, outside₂.trans outside₁, resolved.trans ends⟩

theorem process_of_seeks (h : Seeks s d package w v) :
    ∃ w' : Progress σ, w'.tree = w.tree ∧ w'.outside = (s.resolve package w.outside).2 ∧
      process s d package w = fetch s d package v (versionToken v) w' := by
  obtain ⟨w₁, tree₁, outside₁, resolved⟩ := process_of_resolved (d := d) h.safe h.resolved
  have unknown := h.unknown
  have scratch := h.scratch
  rw [← tree₁] at unknown scratch
  obtain ⟨w₂, tree₂, outside₂, sought⟩ := version_of_scratch (s := s) unknown scratch
  exact ⟨w₂, tree₂.trans tree₁, outside₂.trans outside₁, resolved.trans sought⟩

theorem process_of_obtains (h : Obtains s d package w v archive) :
    ∃ w' : Progress σ, w'.tree = w.tree ∧
      w'.outside = (s.download package v w.outside).2.2 ∧
      process s d package w = unpack s d package (versionToken v) archive
        (s.download package v w.outside).2.1 w' := by
  obtain ⟨w₁, tree₁, outside₁, sought⟩ := process_of_seeks h.toSeeks
  obtain ⟨files, fetched, foremost⟩ := h.obtained
  rw [Services.download, ← outside₁] at fetched ⊢
  obtain ⟨w₂, tree₂, outside₂, obtained⟩ := fetch_of_files fetched foremost
  exact ⟨w₂, tree₂.trans tree₁, outside₂, sought.trans obtained⟩

theorem process_of_opens (h : Opens s d package w v archive table) :
    ∃ w' : Progress σ, w'.tree = w.tree ∧
      w'.outside = (s.opening package v archive w.outside).2.2 ∧
      process s d package w =
        Prod.map id Reply.answer (record s d package (versionToken v) table w') := by
  obtain ⟨w₁, tree₁, outside₁, obtained⟩ := process_of_obtains h.toObtains
  have opened := h.opened
  have extracted := h.table_eq
  rw [Services.opening, ← outside₁] at opened extracted ⊢
  obtain ⟨w₂, tree₂, outside₂, onward⟩ := unpack_of_ok opened
  rw [extracted] at onward
  exact ⟨w₂, tree₂.trans tree₁, outside₂, obtained.trans onward⟩

end Item

/-! ## Every exit is as it is told, and one is taken -/

/-- An item ends as an account tells. -/
structure Item.Ends (s : Services σ) (d : Desk) (S : Place) (package : String) (w : Progress σ)
    (account : Account) : Prop where
  calls : Item.calls s d package w = account.calls
  reply : (Item.process s d package w).2 = account.reply
  gains : Gains S w.tree account.gained (Item.process s d package w).1.tree

section Account

variable {s : Services σ} {d : Desk} {S : Place} {package : String} {w : Progress σ}
variable {v archive : String} {table : SymbolTable} {account : Account}

theorem Seeks.logged (h : Seeks s d package w v) : Seeks s.logged d package w.logging v :=
  ⟨h.safe, h.resolved, h.unknown, h.scratch⟩

theorem Obtains.logged (h : Obtains s d package w v archive) :
    Obtains s.logged d package w.logging v archive :=
  ⟨h.toSeeks.logged, h.obtained⟩

theorem Opens.logged (h : Opens s d package w v archive table) :
    Opens s.logged d package w.logging v archive table :=
  ⟨h.toObtains.logged, h.opened, h.table_eq⟩

/-- What an item does is seen when its calls are noted. -/
theorem Item.ends_of_logged {w' : Progress (σ × List Call)}
    (ends : process s.logged d package w.logging = (w', account.reply))
    (noted : w'.outside.2 = account.calls) (gains : Gains S w.tree account.gained w'.tree) :
    Ends s d S package w account := by
  have same : process s d package w = (w'.forget, account.reply) := by
    have both := process_logged s d package w.logging
    rw [ends] at both
    exact both.symm
  refine ⟨?_, ?_, ?_⟩
  · rw [Item.calls, ends, noted]
  · rw [same]
  · rw [same]
    exact gains

theorem Item.ends_of_logged_eq {w' : Progress (σ × List Call)} {calls : List Call}
    {reply : Reply Outcome} (ends : process s.logged d package w.logging = (w', reply))
    (noted : w'.outside.2 = calls) (same : w'.tree = w.tree) :
    Ends s d S package w ⟨calls, reply, none⟩ := by
  refine ends_of_logged ends noted ?_
  rw [same]
  exact .refl w.tree

theorem Item.ends_of_known (safe : isSafePart package = true)
    (resolved : (s.resolve package w.outside).1 = .answer (some v))
    (known : d.store.has w.tree d.directory package (versionToken v) = true) :
    Ends s d S package w ⟨[.resolve package], .answer (.known (versionToken v)), none⟩ := by
  obtain ⟨_, tree, outside, ends⟩ :=
    process_of_known_version (s := s.logged) (w := w.logging) safe resolved known
  exact ends_of_logged_eq ends (congrArg Prod.snd outside) tree

theorem Seeks.ends_of_nothing (seeks : Seeks s d package w v)
    (nothing : (s.download package v w.outside).1 = .answer []) :
    Item.Ends s d S package w
      ⟨[.resolve package, .fetch package v], .answer (.skipped .notDownloaded), none⟩ := by
  obtain ⟨w₁, tree₁, outside₁, sought⟩ := Item.process_of_seeks seeks.logged
  obtain ⟨_, tree, outside, ends⟩ := Item.fetch_of_nothing (s := s.logged) (d := d)
    (w := w₁) (by rw [outside₁]; exact nothing)
  rw [outside₁] at outside
  exact Item.ends_of_logged_eq (sought.trans ends) (congrArg Prod.snd outside)
    (tree.trans tree₁)

/-- Where a way to end is open, the item ends so. -/
theorem Exit.ends (found : w.tree.find d.directory d.store.folder = .ok (S, .directory))
    (h : Exit s d S package w account) : Item.Ends s d S package w account := by
  cases h with
  | unsafeName bad =>
      exact Item.ends_of_logged_eq (Item.process_of_unsafe bad) rfl rfl
  | resolveBroke safe broke =>
      obtain ⟨_, tree, outside, ends⟩ :=
        Item.process_of_breakdown (s := s.logged) (d := d) (w := w.logging) safe broke
      exact Item.ends_of_logged_eq ends (congrArg Prod.snd outside) tree
  | unresolved safe missing =>
      obtain ⟨_, tree, outside, ends⟩ :=
        Item.process_of_unresolved (s := s.logged) (d := d) (w := w.logging) safe missing
      exact Item.ends_of_logged_eq ends (congrArg Prod.snd outside) tree
  | known safe resolved known => exact Item.ends_of_known safe resolved known
  | noScratch safe resolved unknown missing =>
      obtain ⟨_, tree, outside, ends⟩ := Item.process_of_noScratch (s := s.logged)
        (w := w.logging) safe resolved unknown missing
      exact Item.ends_of_logged_eq ends (congrArg Prod.snd outside) tree
  | fetchBroke seeks broke =>
      obtain ⟨w₁, tree₁, outside₁, sought⟩ := Item.process_of_seeks seeks.logged
      obtain ⟨_, tree, outside, ends⟩ := Item.fetch_of_breakdown (s := s.logged) (d := d)
        (w := w₁) (by rw [outside₁]; exact broke)
      rw [outside₁] at outside
      exact Item.ends_of_logged_eq (sought.trans ends) (congrArg Prod.snd outside)
        (tree.trans tree₁)
  | notDownloaded seeks nothing => exact seeks.ends_of_nothing nothing
  | unpackBroke obtains broke =>
      obtain ⟨w₁, tree₁, outside₁, obtained⟩ := Item.process_of_obtains obtains.logged
      obtain ⟨_, tree, outside, ends⟩ := Item.unpack_of_breakdown (s := s.logged) (d := d)
        (w := w₁) (by rw [outside₁]; exact broke)
      rw [outside₁] at outside
      exact Item.ends_of_logged_eq (obtained.trans ends) (congrArg Prod.snd outside)
        (tree.trans tree₁)
  | notUnpacked obtains failed =>
      obtain ⟨w₁, tree₁, outside₁, obtained⟩ := Item.process_of_obtains obtains.logged
      obtain ⟨_, tree, outside, ends⟩ := Item.unpack_of_error (s := s.logged) (d := d)
        (w := w₁) (by rw [outside₁]; exact failed)
      rw [outside₁] at outside
      exact Item.ends_of_logged_eq (obtained.trans ends) (congrArg Prod.snd outside)
        (tree.trans tree₁)
  | nothingFound opens nothing =>
      obtain ⟨w₁, tree₁, outside₁, opened⟩ := Item.process_of_opens opens.logged
      rw [Item.record, if_pos nothing] at opened
      exact Item.ends_of_logged_eq opened (congrArg Prod.snd outside₁) tree₁
  | unwritten opens some obstacle =>
      obtain ⟨w₁, tree₁, outside₁, opened⟩ := Item.process_of_opens opens.logged
      obtain ⟨_, alike, outside, ends⟩ := Item.record_of_obstacle (s := s.logged) (w := w₁)
        (by rw [tree₁]; exact found) some (by rw [tree₁, outside₁]; exact obstacle)
      rw [ends] at opened
      rw [outside₁] at outside
      rw [tree₁] at alike
      exact Item.ends_of_logged opened (congrArg Prod.snd outside) alike
  | recorded opens some noObstacle =>
      obtain ⟨w₁, tree₁, outside₁, opened⟩ := Item.process_of_opens opens.logged
      obtain ⟨_, alike, outside, ends⟩ := Item.record_of_noObstacle (s := s.logged) (w := w₁)
        (by rw [tree₁]; exact found) some (by rw [tree₁, outside₁]; exact noObstacle)
      rw [ends] at opened
      rw [outside₁] at outside
      rw [tree₁] at alike
      exact Item.ends_of_logged opened (congrArg Prod.snd outside) alike

/-- A table is recorded unless it is empty or something keeps it out of the store. -/
theorem Opens.exists_exit (S : Place) (opens : Opens s d package w v archive table) :
    ∃ account, Exit s d S package w account := by
  cases empty : table.isEmpty with
  | true => exact ⟨_, .nothingFound opens empty⟩
  | false =>
      cases obstacle : d.store.obstacle? w.tree S package (versionToken v)
        (s.accepts (s.opening package v archive w.outside).2.2).1 with
      | none => exact ⟨_, .recorded opens empty obstacle⟩
      | some e => exact ⟨_, .unwritten opens empty obstacle⟩

theorem Obtains.exists_exit (S : Place) (obtains : Obtains s d package w v archive) :
    ∃ account, Exit s d S package w account := by
  rcases opened : (s.opening package v archive w.outside).1 with (failure | ⟨⟩) | message
  · exact ⟨_, .notUnpacked obtains opened⟩
  · have opens : Opens s d package w v archive _ := ⟨obtains, opened, rfl⟩
    exact opens.exists_exit S
  · exact ⟨_, .unpackBroke obtains opened⟩

theorem Seeks.exists_exit (S : Place) (seeks : Seeks s d package w v) :
    ∃ account, Exit s d S package w account := by
  rcases fetched : (s.download package v w.outside).1 with files | message
  · cases least : leastPath? files with
    | none =>
        rw [leastPath?_eq_none_iff.mp least] at fetched
        exact ⟨_, .notDownloaded seeks fetched⟩
    | some archive =>
        have obtains : Obtains s d package w v archive :=
          ⟨seeks, files, fetched, leastPath?_eq_some_iff.mp least⟩
        exact obtains.exists_exit S
  · exact ⟨_, .fetchBroke seeks fetched⟩

/-- There is no other way to end. -/
theorem exists_exit (s : Services σ) (d : Desk) (S : Place) (package : String) (w : Progress σ) :
    ∃ account, Exit s d S package w account := by
  cases safe : isSafePart package with
  | false => exact ⟨_, .unsafeName safe⟩
  | true =>
      rcases resolved : (s.resolve package w.outside).1 with (_ | v) | message
      · exact ⟨_, .unresolved safe resolved⟩
      · cases known : d.store.has w.tree d.directory package (versionToken v) with
        | true => exact ⟨_, .known safe resolved known⟩
        | false =>
            cases scratch : w.tree.isDirectory d.directory d.temporary with
            | false => exact ⟨_, .noScratch safe resolved known scratch⟩
            | true =>
                have seeks : Seeks s d package w v := ⟨safe, resolved, known, scratch⟩
                exact seeks.exists_exit S
      · exact ⟨_, .resolveBroke safe resolved⟩

end Account

/-- No record is known in a tree without files. -/
theorem has_sampleTree (r : RecordStore) (cwd : Place) (package token : String) :
    r.has sampleTree cwd package token = false := by
  rw [Bool.eq_false_iff]
  intro known
  obtain ⟨p, content, _, entry⟩ := FileTree.isFile_eq_true_iff.mp known
  unfold FileTree.get? at entry
  split at entry
  · cases entry
  · rw [sampleTree, FileTree.lookup_cons_if] at entry
    split at entry <;> cases entry

end ApiInventory.Batch

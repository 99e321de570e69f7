import ApiInventory.Proofs.Batch.Turns
import ApiInventory.Proofs.Files.Replacement

/-!
# What an item does to the files

An item changes the tree only when it tries to record a table: `Recording` says what can come of
it once the version is known, and `Item.process_cases` how an item gets that far. What the
services do in work areas of their own is not part of the tree.
-/

namespace ApiInventory.Batch

open Files (FileTree Place)

/-- The reply of an item that has recorded nothing. -/
def Reply.RecordsNothing (reply : Reply Outcome) : Prop :=
  ∀ record symbols, reply ≠ .answer (.recorded record symbols)

/-- What can come of the wish to record a package at a version token, from one tree to another. -/
inductive Recording (d : Desk) (package token : String) (t : FileTree) :
    FileTree → Reply Outcome → Prop
  | idle {reply : Reply Outcome} (nothing : reply.RecordsNothing) :
      Recording d package token t t reply
  | recorded {table : SymbolTable} {accepted : Bool} (found : table.isEmpty = false)
      (written : (d.store.write t d.directory package token table accepted).result = .ok ()) :
      Recording d package token t (d.store.write t d.directory package token table accepted).tree
        (.answer (.recorded (recordName package token) table.size))
  | unwritten {table : SymbolTable} {accepted : Bool} {e : Files.FileError}
      (failed : (d.store.write t d.directory package token table accepted).result = .error e) :
      Recording d package token t (d.store.write t d.directory package token table accepted).tree
        (.answer (.skipped (.ofFailure e.message [])))

/-- What has come of it if the reply is that there is a record. -/
theorem Recording.of_recorded {d : Desk} {package token : String} {t t' : FileTree}
    {record : String} {symbols : Nat}
    (h : Recording d package token t t' (.answer (.recorded record symbols))) :
    ∃ table accepted, table.isEmpty = false ∧
      (d.store.write t d.directory package token table accepted).result = .ok () ∧
      t' = (d.store.write t d.directory package token table accepted).tree ∧
      record = recordName package token ∧ symbols = table.size := by
  generalize reply : Reply.answer (Outcome.recorded record symbols) = r at h
  cases h with
  | idle nothing => exact absurd reply.symm (nothing record symbols)
  | @recorded table accepted found written =>
      obtain ⟨rfl, rfl⟩ := Outcome.recorded.inj (Reply.answer.inj reply)
      exact ⟨table, accepted, found, written, rfl, rfl, rfl⟩
  | unwritten => cases Reply.answer.inj reply

theorem Recording.evolves {d : Desk} {package token : String} {t t' : FileTree}
    {reply : Reply Outcome} (h : Recording d package token t t' reply) :
    t.Evolves (fun _ => True) t' := by
  cases h with
  | idle => exact .refl _ t
  | recorded | unwritten => exact FileTree.replaceFile_evolves fun _ _ => trivial

namespace Item

variable {σ : Type} (s : Services σ) (d : Desk) (package token : String)

theorem record_recording (table : SymbolTable) (w : Progress σ) :
    Recording d package token w.tree (record s d package token table w).1.tree
      (.answer (record s d package token table w).2) := by
  unfold record
  split
  · exact .idle nofun
  · rename_i found
    dsimp only
    split
    · rename_i written
      exact .recorded (by simpa using found) written
    · rename_i failed
      exact .unwritten failed

theorem unpack_recording (archive : String) (area : FileTree) (w : Progress σ) :
    Recording d package token w.tree (unpack s d package token archive area w).1.tree
      (unpack s d package token archive area w).2 := by
  unfold unpack
  dsimp only
  split
  · exact .idle nofun
  · exact .idle nofun
  · exact record_recording s d package token _
      { w.note (.unpacking package archive) with outside := (s.unpack archive area w.outside).2.2 }

theorem fetch_recording (version : String) (w : Progress σ) :
    Recording d package token w.tree (fetch s d package version token w).1.tree
      (fetch s d package version token w).2 := by
  unfold fetch
  dsimp only
  split
  · exact .idle nofun
  · split
    · exact .idle nofun
    · exact unpack_recording s d package token _ _
        { w.note (.fetching package version) with
          outside := (s.fetch package version WorkArea.new w.outside).2.2 }

@[simp] theorem tree_noteUnsortable (version : String) (w : Progress σ) :
    (noteUnsortable package version token w).tree = w.tree := by
  unfold noteUnsortable
  split <;> rfl

/-- An item changes nothing, unless its package may be recorded, its version is known and there
is no record of it yet. -/
theorem process_cases (w : Progress σ) :
    ((process s d package w).1.tree = w.tree ∧ (process s d package w).2.RecordsNothing) ∨
    ∃ version, isSafePart package = true ∧
      (s.resolve package w.outside).1 = .answer (some version) ∧
      d.store.has w.tree d.directory package (versionToken version) = false ∧
      Recording d package (versionToken version) w.tree (process s d package w).1.tree
        (process s d package w).2 := by
  unfold process
  split
  · rename_i safe
    dsimp only [Progress.outside_note]
    split
    · exact .inl ⟨rfl, nofun⟩
    · exact .inl ⟨rfl, nofun⟩
    · rename_i v resolved
      unfold version
      dsimp only
      split
      · exact .inl ⟨by simp, nofun⟩
      · rename_i unknown
        split
        · right
          refine ⟨v, safe, resolved, by simpa using unknown, ?_⟩
          have recording := fetch_recording s d package (versionToken v) v
            (noteUnsortable package v (versionToken v)
              { w.note (.resolving package) with outside := (s.resolve package w.outside).2 })
          simpa using recording
        · exact .inl ⟨by simp, nofun⟩
  · exact .inl ⟨rfl, nofun⟩

/-- A package that is known is left alone. -/
theorem process_of_known {w : Progress σ} {v : String} (safe : isSafePart package = true)
    (resolved : (s.resolve package w.outside).1 = .answer (some v))
    (known : d.store.has w.tree d.directory package (versionToken v) = true) :
    (process s d package w).1.tree = w.tree ∧
      (process s d package w).2 = .answer (.known (versionToken v)) := by
  rcases e : s.resolve package w.outside with ⟨reply, o⟩
  rw [e] at resolved
  obtain rfl : reply = .answer (some v) := resolved
  have resolving : version s d package v { w.note (.resolving package) with outside := o } =
      (noteUnsortable package v (versionToken v)
        { w.note (.resolving package) with outside := o }, .answer (.known (versionToken v))) := by
    unfold version
    dsimp only
    rw [if_pos (by simpa using known)]
  simp only [process, Progress.outside_note, e, if_pos safe, resolving]
  simp

theorem process_evolves (w : Progress σ) :
    w.tree.Evolves (fun _ => True) (process s d package w).1.tree := by
  rcases process_cases s d package w with ⟨same, _⟩ | ⟨_, _, _, _, recording⟩
  · rw [same]
    exact .refl _ w.tree
  · exact recording.evolves

/-- A breakdown changes the outcome, but nothing in the tree. -/
theorem attempt_tree (w : Progress σ) :
    (attempt s d package w).1.tree = (process s d package w).1.tree := by
  unfold attempt
  split <;> simp_all

theorem attempt_eq_recorded_iff (w : Progress σ) {record : String} {symbols : Nat} :
    (attempt s d package w).2 = .recorded record symbols ↔
      (process s d package w).2 = .answer (.recorded record symbols) := by
  unfold attempt
  split
  · rename_i reply
    simp [reply]
  · rename_i reply
    simp [reply]

end Item

/-- A turn makes directories and puts files in their places, as an item and a save do. -/
theorem takeTurn_evolves {σ : Type} (s : Services σ) (d : Desk) (package : String)
    (position : Nat) (w : Progress σ) :
    w.tree.Evolves (fun _ => True) (takeTurn s d package position w).attempted.tree ∧
      w.tree.Evolves (fun _ => True) (takeTurn s d package position w).after.tree := by
  have attempted := Item.process_evolves s d package w
  rw [← Item.attempt_tree] at attempted
  exact ⟨attempted, attempted.trans (FileTree.replaceFile_evolves fun _ _ => trivial)⟩

section Run

variable {σ : Type} {s : Services σ} {d : Desk}

theorem Course.evolves {deadline : Nat} {items : List (String × Nat)} {r : Reached}
    {w : Progress σ} {turns : List (Turn σ)} {out : Progress σ × Except RunError Reached}
    (h : Course s d deadline items r w turns out) : w.tree.Evolves (fun _ => True) out.1.tree := by
  induction h with
  | through | late => exact .refl _ _
  | @failed package position _ _ w =>
      have turn := (takeTurn_evolves s d package position (w.timed s)).2
      rwa [Progress.tree_timed] at turn
  | @turn package position _ _ w _ _ _ _ _ ih =>
      have turn := (takeTurn_evolves s d package position (w.timed s)).2
      rw [Progress.tree_timed] at turn
      exact turn.trans ih

theorem finish_evolves (total start : Nat) (r : Reached) (w : Progress σ) :
    w.tree.Evolves (fun _ => True) (finish s d total start r w).1.tree := by
  by_cases inside : r.next < total
  · rw [finish_inside inside]
    exact .refl _ _
  · rw [(finish_through s d start w (Nat.le_of_not_lt inside)).1]
    exact FileTree.replaceFile_evolves fun _ _ => trivial

/-- A run takes nothing away, however it ends. -/
theorem run_evolves (s : Services σ) (d : Desk) (limits : Limits) (packages : List String)
    (w : Progress σ) : w.tree.Evolves (fun _ => True) (run s d limits packages w).1.tree := by
  rcases run_cases s d limits packages w with ⟨w', e, loop, whole⟩ | ⟨w', r, loop, whole⟩
  · rw [whole, ← tree_startPosition d w]
    exact loop.evolves
  · rw [whole, ← tree_startPosition d w]
    exact loop.evolves.trans (finish_evolves _ _ r w')

end Run

theorem noLinks_sampleTree : sampleTree.NoLinks :=
  FileTree.noLinks_of_entries (by simp [sampleTree])

end ApiInventory.Batch

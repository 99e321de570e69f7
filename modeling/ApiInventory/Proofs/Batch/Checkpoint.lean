import ApiInventory.Batch.Checkpoint
import ApiInventory.Proofs.Files.Replacement

/-!
# Checkpoints saved and loaded

A position that was saved is loaded again, in decimal as it was written, provided that the path
of the checkpoint still leads to it (`load_save`).
-/

namespace ApiInventory.Batch.Checkpoint

open Files (FileTree Place)

variable {t t' : FileTree} {cwd : Place} {path : String} {position : Nat}

/-- What is loaded depends on what is read, and on nothing else. -/
theorem load_congr (same : t'.read cwd path = t.read cwd path) :
    load t' cwd path = load t cwd path := by
  rw [load, load, same]

theorem load_of_read (small : position < Text.counterBound)
    (holds : t.read cwd path = .ok (content position)) :
    load t cwd path = (position, none) := by
  rw [load, holds]
  simp only [content, Text.decode?_encode, Text.trim_toString, Text.counter?_toString small]

/-- Without a counter in its file, a checkpoint counts as zero. -/
theorem load_eq_zero (h : ∀ content, t.read cwd path = .ok content → position? content = none) :
    (load t cwd path).1 = 0 := by
  unfold load
  split
  · rfl
  · rfl
  · rename_i content read
    have none := h content read
    unfold position? at none
    split
    · rfl
    · rename_i text decoded
      rw [decoded, Option.bind_some] at none
      rw [none]

/-- A position that is saved is loaded, if its file is where the path leads. -/
theorem load_save {accepts : Bool} (small : position < Text.counterBound)
    (done : (save t cwd path position accepts).result = .ok ())
    (steady : (t.makeDirectories cwd (FileTree.parentOf path)).tree.Steady cwd path) :
    load (save t cwd path position accepts).tree cwd path = (position, none) :=
  load_of_read small (FileTree.read_replaceFile done steady)

end ApiInventory.Batch.Checkpoint

import ApiInventory.Files.Replace
import ApiInventory.Text.Blank
import ApiInventory.Text.Counter
import ApiInventory.Text.Utf8

/-!
# The checkpoint

The checkpoint is a file that holds, in decimal, the position of the package to attempt
next. A checkpoint that is missing counts as zero; so does one that cannot be read or
holds anything else, with a warning.
-/

namespace ApiInventory.Batch

open Files (FileTree FileError Place Attempt)

namespace Checkpoint

inductive Warning where
  | unreadable
  | invalid
deriving DecidableEq, Repr

/-- The position that some content stands for. -/
def position? (content : ByteArray) : Option Nat :=
  (Text.decode? content).bind fun s => Text.counter? (Text.trim s.toList)

/-- The position to go on from. -/
def load (t : FileTree) (cwd : Place) (path : String) : Nat × Option Warning :=
  match t.read cwd path with
  | .error .notFound => (0, none)
  | .error _ => (0, some .unreadable)
  | .ok content =>
    match Text.decode? content with
    | none => (0, some .unreadable)
    | some s =>
      match Text.counter? (Text.trim s.toList) with
      | some n => (n, none)
      | none => (0, some .invalid)

def content (position : Nat) : ByteArray := Text.encode (toString position)

/-- Note the position to go on from. -/
def save (t : FileTree) (cwd : Place) (path : String) (position : Nat) (accepts : Bool) :
    Attempt :=
  t.replaceFile cwd path (content position) accepts

end Checkpoint

end ApiInventory.Batch

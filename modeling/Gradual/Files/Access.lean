import Gradual.Files.Path

/-!
# Access to files

What a command needs of the world: where it runs, whether something is present under a path, the
bytes of a file, and a clock. The command itself is pure; it is run with the real files or with a
tree of files in memory.
-/

namespace Gradual

/-- Access to files in some monad. -/
structure FileAccess (m : Type → Type) where
  workingPlace : m Place
  isPresent : (path : Text) → m Bool
  /-- The bytes of a file, or the reason why it cannot be read. -/
  read : (path : Text) → m (Except Text (List UInt8))
  milliseconds : m Nat

end Gradual

import ShellDecl.Host
import ShellDecl.Shell.Document

/-!
# Source files

A script in a file is read only if the file is not larger than a limit. The size is asked for first, so a file that is
too large is not read at all.
-/

set_option autoImplicit false

namespace ShellDecl.Shell

def megabytes (bytes : Nat) : Nat :=
  bytes / 1024 / 1024

inductive SourceError where
  | tooLarge (path : String) (size limit : Nat)
  | file (e : FileError)
  deriving DecidableEq, Repr

def SourceError.message : SourceError → String
  | .tooLarge path size limit =>
    "File too large (" ++ toString (megabytes size) ++ "MB > " ++ toString (megabytes limit) ++ "MB limit): " ++ path
  | .file e => e.message

variable {m : Type → Type} [Monad m]

/-- The text of a script of `limit` bytes at most. -/
def readSource (h : Host m) (limit : Nat) (path : String) : ExceptT SourceError m String := do
  let size ← (h.size path).adapt .file
  if limit < size then throw (.tooLarge path size limit)
  (h.read path).adapt .file

def readDocument (h : Host m) (limit : Nat) (path : String) : ExceptT SourceError m Document := do
  return Document.ofSource (← readSource h limit path)

end ShellDecl.Shell

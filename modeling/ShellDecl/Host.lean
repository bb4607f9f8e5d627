/-!
# Hosts

What a run needs of the machine it runs on: files, the current directory and environment variables. A run is written
against these operations alone, so it can work on the files of a machine and on files in memory.
-/

set_option autoImplicit false

namespace ShellDecl

inductive FileError where
  | missing
  | notDirectory
  | isDirectory
  | alreadyThere
  | nameTooLong
  /-- The name of a file cannot hold the character of code zero. -/
  | zeroInName
  /-- The bytes of the file are no text. -/
  | notText
  | other (text : String)
  deriving DecidableEq, Repr

def FileError.numbered (text : String) (number : Nat) : String :=
  text ++ " (os error " ++ toString number ++ ")"

def FileError.message : FileError → String
  | .missing => numbered "No such file or directory" 2
  | .notDirectory => numbered "Not a directory" 20
  | .isDirectory => numbered "Is a directory" 21
  | .alreadyThere => numbered "File exists" 17
  | .nameTooLong => numbered "File name too long" 36
  | .zeroInName => "file name contained an unexpected NUL byte"
  | .notText => "stream did not contain valid UTF-8"
  | .other text => text

structure Host (m : Type → Type) where
  /-- The number of bytes of what a path leads to. -/
  size (path : String) : ExceptT FileError m Nat
  /-- The text of a file. -/
  read (path : String) : ExceptT FileError m String
  /-- Whether a path leads to anything. -/
  isThere (path : String) : m Bool
  /-- The absolute path without dots of what a path leads to. -/
  resolve (path : String) : ExceptT FileError m String
  /-- Makes a directory and those above it, as far as they are missing. -/
  makeDirectories (path : String) : ExceptT FileError m Unit
  /-- Makes a file or replaces what it holds. -/
  write (path : String) (text : String) : ExceptT FileError m Unit
  currentDirectory : m String
  /-- The value of an environment variable, if it is set. -/
  environment (name : String) : m (Option String)

end ShellDecl

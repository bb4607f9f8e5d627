import ShellDecl.Declaration
import ShellDecl.Shell.Source

/-!
# Lookups

A lookup starts from a cursor or from a symbol. From a cursor, the symbol under it is what is looked up.
-/

set_option autoImplicit false

namespace ShellDecl

structure Lookup where
  query : Option Symbol
  declaration : Option Symbol
  deriving DecidableEq, Repr

inductive LookupError where
  | source (e : Shell.SourceError)
  | finder (e : FinderError)
  deriving DecidableEq, Repr

def LookupError.message : LookupError → String
  | .source e => e.message
  | .finder e => e.message

namespace Shell.Document

def declarationOf (d : Document) (query : Symbol) : Except FinderError (Option Symbol) :=
  findDeclaration d.script query

def definitionAt (d : Document) (line column : Nat) : Except FinderError Lookup :=
  match d.symbolAt? line column with
  | none => .ok ⟨none, none⟩
  | some query => (d.declarationOf query).map (⟨some query, ·⟩)

end Shell.Document

namespace Lookup

variable {m : Type → Type} [Monad m]

def inFile {α : Type} (h : Host m) (limit : Nat) (path : String)
    (ask : Shell.Document → Except FinderError α) : ExceptT LookupError m α := do
  let d ← (Shell.readDocument h limit path).adapt .source
  ExceptT.mk (pure ((ask d).mapError .finder))

def definitionAt (h : Host m) (limit : Nat) (path : String) (line column : Nat) : ExceptT LookupError m Lookup :=
  inFile h limit path (·.definitionAt line column)

def declarationOf (h : Host m) (limit : Nat) (path : String) (query : Symbol) :
    ExceptT LookupError m (Option Symbol) :=
  inFile h limit path (·.declarationOf query)

end Lookup

end ShellDecl

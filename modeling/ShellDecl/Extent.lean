/-!
# Extents

A stretch of script text with the places where it starts and ends. Lines and columns count from one and columns
count characters; only `\n` ends a line. The end of an extent is computed from its start and its text, and the
same place is reached by stepping through the text one character at a time. An extent holds its lines and columns in
words of 32 bits, and what is added to a word beyond them is lost.
-/

set_option autoImplicit false

namespace ShellDecl

/-- A place between two characters, named by the line and column of the character after it. -/
structure Position where
  line : Nat
  column : Nat
  deriving DecidableEq, Repr

namespace Position

def le (p q : Position) : Bool :=
  p.line < q.line || (p.line == q.line && p.column ≤ q.column)

def lt (p q : Position) : Bool :=
  p.line < q.line || (p.line == q.line && p.column < q.column)

def step (p : Position) (c : Char) : Position :=
  if c = '\n' then ⟨p.line + 1, 1⟩ else ⟨p.line, p.column + 1⟩

def advance (p : Position) (text : List Char) : Position :=
  text.foldl step p

def lastLine (text : List Char) : List Char :=
  (text.reverse.takeWhile (· != '\n')).reverse

/-- The place where `text` ends when it starts at `p`, from its count of line breaks and its last line. -/
def endOf (p : Position) (text : List Char) : Position :=
  if text.contains '\n' then ⟨p.line + text.count '\n', (lastLine text).length + 1⟩
  else ⟨p.line, p.column + text.length⟩

/-- What is left of a place in 32 bits. -/
def wrap (p : Position) : Position :=
  ⟨p.line % UInt32.size, p.column % UInt32.size⟩

end Position

structure Extent where
  start : Position
  stop : Position
  text : String
  deriving DecidableEq, Repr

namespace Extent

def ofText (start : Position) (text : String) : Extent :=
  ⟨start, (start.endOf text.toList).wrap, text⟩

def onLine (line startColumn stopColumn : Nat) (text : String) : Extent :=
  ⟨⟨line, startColumn⟩, ⟨line, stopColumn⟩, text⟩

def isSingleLine (e : Extent) : Bool :=
  e.start.line == e.stop.line

/-- The start belongs to an extent and the stop does not. `contains_iff_lines` says it line by line. -/
def contains (e : Extent) (p : Position) : Bool :=
  e.start.le p && p.lt e.stop

def charCount (e : Extent) : Nat :=
  e.text.length

def display (e : Extent) : String :=
  let head := toString e.start.line ++ ":" ++ toString e.start.column ++ "-"
  if e.isSingleLine then head ++ toString e.stop.column
  else head ++ toString e.stop.line ++ ":" ++ toString e.stop.column

end Extent

end ShellDecl

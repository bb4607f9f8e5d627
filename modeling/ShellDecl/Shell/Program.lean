import ShellDecl.Shell.Statement

/-!
# Programs

The readers for nested text, tied together by depth, and the reading of a whole script. What cannot be read is kept to
the end of its line in a node of its own, and reading goes on with the next line.
-/

set_option autoImplicit false

namespace ShellDecl.Shell

open Reader

/-- No text nests deeper than it is long, so a depth of its length is never used up. -/
def Nested.ofDepth : Nat → Nested
  | 0 => {
    block := fun _ _ => fail
    statement := fun _ => fail
    word := fun _ => fail
    dollar := fun _ => fail
    string := fun _ => fail
    arithmetic := fun _ => fail
    tightArithmetic := fun _ => fail
    loopExpression := fun _ => fail
    tightLoopExpression := fun _ => fail
    test := fun _ _ => fail
    tightTest := fun _ _ => fail
    negatedTest := fun _ _ => fail }
  | n + 1 => {
    block := fun ctx closers => ⟨fun input => (Shell.block (ofDepth n) ctx closers).read input⟩
    statement := fun ctx => ⟨fun input => (Shell.statement (ofDepth n) ctx).read input⟩
    word := fun ctx => ⟨fun input => (Shell.word (ofDepth n) ctx).read input⟩
    dollar := fun ctx => ⟨fun input => (Shell.dollar (ofDepth n) ctx).read input⟩
    string := fun ctx => ⟨fun input => (Shell.string (ofDepth n) ctx).read input⟩
    arithmetic := fun ctx => ⟨fun input => (Shell.arithmetic (ofDepth n) ctx).read input⟩
    tightArithmetic := fun ctx => ⟨fun input => (Shell.tightArithmetic (ofDepth n) ctx).read input⟩
    loopExpression := fun ctx => ⟨fun input => (Shell.loopExpression (ofDepth n) ctx).read input⟩
    tightLoopExpression := fun ctx => ⟨fun input => (Shell.tightLoopExpression (ofDepth n) ctx).read input⟩
    test := fun double ctx => ⟨fun input => (Shell.test (ofDepth n) double ctx).read input⟩
    tightTest := fun double ctx => ⟨fun input => (Shell.tightTest (ofDepth n) double ctx).read input⟩
    negatedTest := fun double ctx => ⟨fun input => (Shell.negatedTest (ofDepth n) double ctx).read input⟩ }

def unreadable : Reader :=
  lineGap >> node "ERROR" (take 1 >> span (· != '\n'))

def endOfText : Reader :=
  lineGap >> optional comment >> ahead List.isEmpty

def programPart (nested : Nested) : Reader :=
  let ended := firstOf [terminator [], endOfText, unreadable]
  firstOf [
    blanks true,
    comment,
    statement nested {} >> ended,
    ahead (fun t => !t.isEmpty) >> optional (command nested {}) >> unreadable]

/-- What stands in front of a script: a byte order mark and blanks. -/
def preamble : Reader :=
  optional (text "\ufeff") >> optional (blanks true)

def program (nested : Nested) : Reader :=
  preamble >> node "program" (many (programPart nested))

def readScript (text : List Char) : Option (Reading text) :=
  (program (Nested.ofDepth (text.length + 1))).read text

end ShellDecl.Shell

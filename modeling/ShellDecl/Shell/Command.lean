import ShellDecl.Shell.Expression
import ShellDecl.Shell.Heredoc

/-!
# Commands

Assignments, redirects, simple commands, and the declarations that look like them.
-/

set_option autoImplicit false

namespace ShellDecl.Shell

open Reader

def isDescriptor (text : List Char) : Bool :=
  match Lexeme.countWhile Char.isDigit text with
  | 0 => false
  | n => Lexeme.headIs (fun c => c == '<' || c == '>') (text.drop n)

def descriptor : Reader :=
  optional (ahead isDescriptor >> node "file_descriptor" (scan fun t => some (Lexeme.countWhile Char.isDigit t)))

def isBefore (s : String) (text : List Char) : Bool :=
  s.toList.isPrefixOf text

def argument (nested : Nested) (ctx : Context) : Reader :=
  ahead (fun t => !isDescriptor t) >> (word nested ctx <|> bareDollar)

/-- A redirect to or from files. After a command every word that follows names a file; in front of one only the
first does. -/
def fileRedirect (nested : Nested) (ctx : Context) (greedy : Bool) : Reader :=
  let file := lineGap >> argument nested ctx
  let files := if greedy then many1 file else file
  node "file_redirect" (descriptor >>
    ahead (fun t => !(isBefore "<<" t || isBefore "<(" t || isBefore ">(" t)) >>
    ((firstOf (["<&-", ">&-"].map text) >> optional file)
      <|> (firstOf (["&>>", "&>", ">>", ">&", "<&", ">|", "<", ">"].map text) >> files)))

def hereString (nested : Nested) (ctx : Context) : Reader :=
  node "herestring_redirect" (descriptor >> text "<<<" >> lineGap >> word nested ctx)

def heredocRedirect (nested : Nested) (ctx : Context) : Reader :=
  let pipe := node "pipeline" (firstOf [text "|&", ahead (fun t => !isBefore "||" t) >> text "|"] >>
    gap >> nested.statement ctx)
  let list := firstOf [text "||", text "&&"] >> gap >> nested.statement ctx
  let redirects := many1 (lineGap >> (fileRedirect nested ctx true <|> hereString nested ctx))
  let onLine := firstOf [
    lineGap >> pipe,
    redirects >> optional (lineGap >> list),
    lineGap >> list,
    many1 (lineGap >> argument nested ctx)]
  let document (indent : Bool) : Reader :=
    lineGap >> ⟨fun input =>
      match Heredoc.delimiter? input with
      | none => none
      | some d =>
        (node "heredoc_start" (take d.length) >> optional onLine >> lineGap >> optional comment >> text "\n" >>
          Heredoc.body nested ctx d indent).read input⟩
  node "heredoc_redirect" (descriptor >>
    ((text "<<-" >> document true)
      <|> (ahead (fun t => !(isBefore "<<<" t || isBefore "<<=" t)) >> text "<<" >> document false)))

def array (nested : Nested) (ctx : Context) : Reader :=
  node "array" (text "(" >> many (gap >> nested.word { ctx with brace := false, bracket := false }) >> gap >> text ")")

def assignment (nested : Nested) (ctx : Context) : Reader :=
  let target : Reader :=
    ⟨fun input =>
      match Lexeme.assigned? input with
      | none => none
      | some n =>
        if Lexeme.headIs (· == '[') (input.drop n) then (nameNode "subscript" (subscript nested ctx)).read input
        else (nameNode "variable_name" (take n)).read input⟩
  node "variable_assignment" (target >> (text "=" <|> text "+=") >>
    optional (array nested ctx <|> value nested ctx))

def leading (nested : Nested) (ctx : Context) : Reader :=
  firstOf [assignment nested ctx, fileRedirect nested ctx false, hereString nested ctx]

def subshell (nested : Nested) (ctx : Context) : Reader :=
  node "subshell" (substitution nested ctx "(")

def arguments (nested : Nested) (ctx : Context) : Reader :=
  (lineGap >> subshell nested ctx) <|> many (lineGap >> (hereString nested ctx <|> argument nested ctx))

def named (nested : Nested) (ctx : Context) : Reader :=
  nameNode "command_name" (ahead (fun t => !isDescriptor t) >> word nested ctx) >> arguments nested ctx

def openingWords : List String :=
  ["if", "while", "until", "for", "select", "case", "function", "declare", "typeset", "export", "readonly", "local",
    "unset", "unsetenv"]

/-- A simple command. Without a name it is what leads it: one assignment, several, or redirects. -/
def command (nested : Nested) (ctx : Context) : Reader :=
  let leads := leading nested ctx >> many (lineGap >> leading nested ctx)
  ⟨fun input =>
    match leads.read input with
    | none =>
      (node "command" (ahead (fun t => !openingWords.any (Lexeme.isWord · t)) >> named nested ctx)).read input
    | some r =>
      match (lineGap >> named nested ctx).read r.rest with
      | some q => some ((r.andThen q).wrap "command" false)
      | none =>
        if r.kinds.all (· == "variable_assignment") then
          if r.kinds.length == 1 then some r else some (r.wrap "variable_assignments" false)
        else some (r.wrap "redirected_statement" false)⟩

def declaredName (ctx : Context) : Reader :=
  ahead (fun t =>
    match Lexeme.loneName? t with
    | some n => !adjoins ctx (t.drop n)
    | none => false) >> variableName

def declaration (nested : Nested) (ctx : Context) : Reader :=
  node "declaration_command" (firstOf (["declare", "typeset", "export", "readonly", "local"].map keyword) >>
    many (lineGap >> firstOf [assignment nested ctx, declaredName ctx, argument nested ctx]))

def unset (nested : Nested) (ctx : Context) : Reader :=
  node "unset_command" (firstOf (["unset", "unsetenv"].map keyword) >>
    many (lineGap >> (declaredName ctx <|> argument nested ctx)))

def testCommand (nested : Nested) (ctx : Context) : Reader :=
  let inner := { ctx with bracket := true, brace := false }
  node "test_command" (
    (text "[[" >> gap >> test nested true inner >> gap >> text "]]")
    <|> (text "[" >> gap >> optional (test nested false inner) >> gap >> text "]"))

end ShellDecl.Shell

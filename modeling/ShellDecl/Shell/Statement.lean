import ShellDecl.Shell.Command

/-!
# Statements

Loops, branches, functions and groups, the pipelines and lists that join statements, and blocks of statements. A
redirect, a pipe and a list each take all of the statement that is read before them.
-/

set_option autoImplicit false

namespace ShellDecl.Shell

open Reader

/-- Whether one of the texts that close a block is ahead. A closing word must stand alone. -/
def closes (closers : List String) (text : List Char) : Bool :=
  closers.any fun s => if s.all Char.isAlpha then Lexeme.isWord s text else isBefore s text

/-- The end of a statement. Where two semicolons close the block they end no statement. -/
def terminator (closers : List String) : Reader :=
  let semicolon :=
    if closers.contains ";;" then
      ahead (fun t => !(isBefore ";;" t || isBefore ";&" t)) >> text ";"
    else text ";;" <|> text ";"
  lineGap >> optional comment >>
    firstOf [semicolon, text "\n", ahead (fun t => !isBefore "&&" t) >> text "&"]

def nestedBlock (nested : Nested) (ctx : Context) (closers : List String) : Reader :=
  nested.block { ctx with brace := false, bracket := false } closers

def condition (nested : Nested) (ctx : Context) (closers : List String) : Reader :=
  ⟨fun input =>
    match (nestedBlock nested ctx closers).read input with
    | some r => if r.kinds.isEmpty then none else some r
    | none => none⟩

def doGroup (nested : Nested) (ctx : Context) : Reader :=
  node "do_group" (keyword "do" >> nestedBlock nested ctx ["done"] >> gap >> keyword "done")

def braces (nested : Nested) (ctx : Context) : Reader :=
  node "compound_statement" (text "\x7b" >> nestedBlock nested ctx ["\x7d"] >> gap >> text "\x7d")

def arithmeticCommand (nested : Nested) (ctx : Context) : Reader :=
  node "compound_statement" (text "((" >> gap >> nested.arithmetic ctx >>
    many (gap >> text "," >> gap >> nested.arithmetic ctx) >> gap >> text "))")

def ifStatement (nested : Nested) (ctx : Context) : Reader :=
  let branch := nestedBlock nested ctx ["elif", "else", "fi"]
  let clause := node "elif_clause" (keyword "elif" >> condition nested ctx ["then"] >> gap >> keyword "then" >> branch)
  let otherwise := node "else_clause" (keyword "else" >> nestedBlock nested ctx ["fi"])
  node "if_statement" (keyword "if" >> condition nested ctx ["then"] >> gap >> keyword "then" >> branch >>
    many (gap >> clause) >> optional (gap >> otherwise) >> gap >> keyword "fi")

def whileStatement (nested : Nested) (ctx : Context) : Reader :=
  node "while_statement" ((keyword "while" <|> keyword "until") >> condition nested ctx ["do"] >> gap >>
    doGroup nested ctx)

def forStatement (nested : Nested) (ctx : Context) : Reader :=
  node "for_statement" ((keyword "for" <|> keyword "select") >> gap >> variableName >>
    optional (gap >> keyword "in" >> many1 (lineGap >> word nested ctx)) >>
    terminator [] >> gap >> doGroup nested ctx)

def countingFor (nested : Nested) (ctx : Context) : Reader :=
  let expressions := optional (gap >> loopExpression nested ctx >> many (gap >> text "," >> gap >>
    loopExpression nested ctx))
  let next := gap >> text ";"
  node "c_style_for_statement" (keyword "for" >> gap >> text "((" >> expressions >> next >> expressions >> next >>
    expressions >> gap >> text "))" >> optional (lineGap >> text ";") >> gap >>
    (doGroup nested ctx <|> braces nested ctx))

def casePattern (nested : Nested) (ctx : Context) : Reader :=
  globPattern nested ctx <|> word nested ctx

def caseItem (nested : Nested) (ctx : Context) : Reader :=
  node "case_item" (optional (text "(" >> gap) >> casePattern nested ctx >>
    many (gap >> text "|" >> gap >> casePattern nested ctx) >> gap >> text ")" >>
    nestedBlock nested ctx ["esac", ";;", ";&"] >>
    (gap >> firstOf [text ";;&", text ";&", text ";;"]
      <|> ahead (fun t => Lexeme.isWord "esac" (t.drop (Lexeme.blanks true 0 t)))))

def caseStatement (nested : Nested) (ctx : Context) : Reader :=
  node "case_statement" (keyword "case" >> gap >> word nested ctx >> gap >> keyword "in" >>
    optional (lineGap >> text ";") >>
    many (gap >> ahead (fun t => !Lexeme.isWord "esac" t) >> caseItem nested ctx) >> gap >> keyword "esac")

def functionBody (nested : Nested) (ctx : Context) : Reader :=
  firstOf [
    braces nested ctx,
    ahead (isBefore "((") >> arithmeticCommand nested ctx,
    subshell nested ctx,
    ahead (isBefore "[") >> testCommand nested ctx,
    ifStatement nested ctx]

def functionDefinition (nested : Nested) (ctx : Context) : Reader :=
  let name := nameNode "word" (scan Lexeme.word?)
  let parentheses := text "(" >> gap >> text ")"
  node "function_definition" (
    ((keyword "function" >> gap >> name >> optional (gap >> parentheses))
      <|> (name >> lineGap >> parentheses)) >>
    gap >> functionBody nested ctx >>
    optional (lineGap >> (fileRedirect nested ctx true <|> hereString nested ctx)))

/-- Whether a word with parentheses after it is ahead, and not an assignment of an array. -/
def isFunctionHead (t : List Char) : Bool :=
  match Lexeme.assigned? t, Lexeme.word? t with
  | some _, _ => false
  | _, none => false
  | none, some n =>
    let rest := t.drop n
    match rest.drop (Lexeme.blanks false 0 rest) with
    | '(' :: more => Lexeme.headIs (· == ')') (more.drop (Lexeme.blanks true 0 more))
    | _ => false

def negated (nested : Nested) (ctx : Context) : Reader :=
  node "negated_command" (keyword "!" >> gap >> firstOf [
    ahead (isBefore "[") >> testCommand nested ctx,
    ahead (fun t => isBefore "(" t && !isBefore "((" t) >> subshell nested ctx,
    command nested ctx])

def single (nested : Nested) (ctx : Context) : Reader :=
  let ctx := { ctx with brace := false, bracket := false }
  let begins (s : String) (t : List Char) := Lexeme.isWord s t
  ⟨fun input =>
    let r : Reader :=
      if isBefore "((" input then arithmeticCommand nested ctx
      else if isBefore "(" input then subshell nested ctx
      else if isBefore "\x7b" input then braces nested ctx
      else if isBefore "[" input then testCommand nested ctx <|> command nested ctx
      else if begins "!" input then negated nested ctx
      else if begins "if" input then ifStatement nested ctx
      else if begins "while" input || begins "until" input then whileStatement nested ctx
      else if begins "for" input then countingFor nested ctx <|> forStatement nested ctx
      else if begins "select" input then forStatement nested ctx
      else if begins "case" input then caseStatement nested ctx
      else if begins "function" input || isFunctionHead input then functionDefinition nested ctx
      else if begins "unset" input || begins "unsetenv" input then unset nested ctx
      else if ["declare", "typeset", "export", "readonly", "local"].any (begins · input) then declaration nested ctx
      else command nested ctx
    r.read input⟩

def pipes (nested : Nested) (ctx : Context) : Reader :=
  many1 (lineGap >> firstOf [text "|&", ahead (fun t => !isBefore "||" t) >> text "|"] >> gap >> single nested ctx)

def pipeline (nested : Nested) (ctx : Context) : Reader :=
  extended "pipeline" (single nested ctx) (pipes nested ctx)

def redirects (nested : Nested) (ctx : Context) : Reader :=
  many1 (lineGap >> firstOf [fileRedirect nested ctx true, heredocRedirect nested ctx, hereString nested ctx])

def statement (nested : Nested) (ctx : Context) : Reader :=
  growAny (pipeline nested ctx) [
    ("redirected_statement", redirects nested ctx),
    ("pipeline", pipes nested ctx),
    ("list", lineGap >> firstOf [text "&&", text "||"] >> gap >> pipeline nested ctx)]

def block (nested : Nested) (ctx : Context) (closers : List String) : Reader :=
  separated (gap >> ahead (fun t => !closes closers t) >> statement nested ctx) (terminator closers)

end ShellDecl.Shell

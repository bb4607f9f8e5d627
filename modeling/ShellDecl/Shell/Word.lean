import ShellDecl.Shell.Lexeme
import ShellDecl.Shell.Reading

/-!
# Words

A word is one piece or several pieces that touch: plain text, quoted text, and the forms that begin with a dollar
sign, a backquote or a bracket. Pieces that touch are joined in a concatenation, with a joint before each but the first.
-/

set_option autoImplicit false

namespace ShellDecl.Shell

open Reader

/-- What encloses a word and so ends it: backquotes, the braces of an expansion, or square brackets. -/
structure Context where
  tick : Bool := false
  brace : Bool := false
  bracket : Bool := false

/-- The readers for text that is nested one level deeper. -/
structure Nested where
  block : Context → List String → Reader
  statement : Context → Reader
  word : Context → Reader
  dollar : Context → Reader
  string : Context → Reader
  arithmetic : Context → Reader
  tightArithmetic : Context → Reader
  loopExpression : Context → Reader
  tightLoopExpression : Context → Reader
  test : Bool → Context → Reader
  tightTest : Bool → Context → Reader
  negatedTest : Bool → Context → Reader

/-- Blanks, without line breaks unless `lines` holds. -/
def blanks (lines : Bool) : Reader :=
  scan fun text =>
    match Lexeme.blanks lines 0 text with
    | 0 => none
    | n => some n

def comment : Reader :=
  node "comment" (scan Lexeme.comment?)

def lineGap : Reader :=
  optional (blanks false)

def gap : Reader :=
  many (blanks true <|> comment)

def keyword (s : String) : Reader :=
  ahead (Lexeme.isWord s) >> text s

def bareDollar : Reader :=
  ahead (fun text =>
    match text with
    | '$' :: rest => rest.isEmpty || Lexeme.headIs (fun c => isBlank c || c == '"') rest
    | _ => false) >> take 1

def variableName : Reader :=
  node "variable_name" (scan Lexeme.name?)

def specialName (extra : List Char) : Reader :=
  node "special_variable_name" (char fun c => "*@?-$_".toList.contains c || extra.contains c)

/-- `_` alone is a special name; any other name is a variable. -/
def anyName (extra : List Char) : Reader :=
  node "variable_name" (scan fun text =>
    match Lexeme.name? text with
    | some 1 => if Lexeme.headIs (· == '_') text then none else some 1
    | n => n) <|> specialName extra

def simpleExpansion : Reader :=
  node "simple_expansion" (text "$" >> anyName ['!', '#'])

def rawString : Reader :=
  node "raw_string" (scan Lexeme.rawString?)

def ansiString : Reader :=
  node "ansi_c_string" (scan Lexeme.ansiString?)

def subscript (nested : Nested) (ctx : Context) : Reader :=
  let inner := { ctx with bracket := true, brace := false }
  nameNode "variable_name" (scan Lexeme.name?) >> text "[" >>
    ((nested.word inner >> ahead (Lexeme.headIs (· == ']')))
      <|> (gap >> nested.arithmetic inner >> gap)) >>
    text "]"

def operandText (count : Nat) : List Char → Nat
  | [] => count
  | '$' :: c :: rest =>
    if c == '\x7b' || c == '(' || c == '\x27' || c.isAlphanum then count else operandText (count + 1) (c :: rest)
  | c :: rest => if c == '"' || c == '\x27' || c == '\x7d' then count else operandText (count + 1) rest

def operandPiece (nested : Nested) (ctx : Context) : Reader :=
  byHead fun
    | '"' => nested.string ctx
    | '\x27' => rawString
    | '$' => nested.dollar ctx
    | _ =>
      node "word" (scan Lexeme.word?) <|>
      node "word" (scan fun text =>
        match operandText 0 text with
        | 0 => none
        | n => some n)

def operand (nested : Nested) (ctx : Context) : Reader :=
  extended "concatenation" (operandPiece nested ctx) (many1 (joint >> operandPiece nested ctx))

def removed (nested : Nested) (ctx : Context) : Reader :=
  optional (firstOf [nested.string ctx, rawString]) >>
    optional (node "regex" (scan Lexeme.removalPattern?))

def expansionSuffix (nested : Nested) (ctx : Context) : Reader :=
  firstOf [
    firstOf (["##", "%%", "#", "%"].map text) >> removed nested ctx,
    firstOf ([":=", ":-", ":+", ":?", "=", "-", "+", "?"].map text) >> optional (operand nested ctx),
    firstOf (["//", "/#", "/%", "/"].map text) >>
      optional (nested.string ctx) >> optional (node "regex" (scan Lexeme.replacedPattern?)) >>
      optional (text "/" >> optional (operand nested ctx)),
    firstOf ([",,", ",", "^^", "^"].map text) >> optional (node "regex" (scan Lexeme.removalPattern?)),
    text ":" >> gap >> optional (nested.arithmetic ctx) >> gap >>
      optional (text ":" >> gap >> optional (nested.arithmetic ctx) >> gap),
    text "@" >> char (fun c => "UuLQEPAKak".toList.contains c)]

def expansion (nested : Nested) (ctx : Context) : Reader :=
  let inner := { ctx with brace := true, bracket := false }
  let closed := ahead (Lexeme.headIs (· == '\x7d'))
  let target :=
    (ahead (fun text =>
        match Lexeme.name? text with
        | some n => Lexeme.headIs (· == '[') (text.drop n)
        | none => false) >> node "subscript" (subscript nested inner))
      <|> anyName []
      <|> nested.dollar inner
  node "expansion" (text "$\x7b" >>
    firstOf [
      closed,
      many1 (char fun c => "#!=".toList.contains c) >> closed,
      text "!" >> variableName >> char (fun c => c == '@' || c == '*') >> closed,
      optional (char fun c => "#!=".toList.contains c) >> target >>
        (closed <|> (expansionSuffix nested inner >> closed))] >>
    text "\x7d")

/-- Statements between parentheses, or between parentheses a lone redirect from a file. -/
def substitution (nested : Nested) (ctx : Context) (opening : String) : Reader :=
  text opening >> nested.block { ctx with brace := false, bracket := false } [")"] >> gap >> text ")"

def commandSubstitution (nested : Nested) (ctx : Context) : Reader :=
  node "command_substitution" (
    (text "$(" >> gap >> node "file_redirect" (text "<" >> ahead (fun t => !Lexeme.headIs (· == '<') t) >>
      lineGap >> nested.word { ctx with brace := false, bracket := false }) >> gap >> text ")")
    <|> substitution nested ctx "$(")

def backquoted (nested : Nested) : Reader :=
  node "command_substitution" (optional (text "$") >> text "\x60" >>
    nested.block { tick := true } ["\x60"] >> gap >> text "\x60")

def processSubstitution (nested : Nested) (ctx : Context) : Reader :=
  node "process_substitution" (substitution nested ctx "<(" <|> substitution nested ctx ">(")

def arithmeticExpansion (nested : Nested) (ctx : Context) : Reader :=
  let inner := { ctx with brace := false, bracket := false }
  node "arithmetic_expansion" (
    (text "$((" >> gap >> nested.arithmetic inner >> many (gap >> text "," >> gap >> nested.arithmetic inner) >>
      gap >> text "))")
    <|> (text "$[" >> gap >> nested.arithmetic { ctx with brace := false, bracket := true } >> gap >> text "]"))

def dollar (nested : Nested) (ctx : Context) : Reader :=
  ⟨fun input =>
    match input with
    | '$' :: '(' :: '(' :: rest => (arithmeticExpansion nested ctx).read ('$' :: '(' :: '(' :: rest)
    | '$' :: '(' :: rest => (commandSubstitution nested ctx).read ('$' :: '(' :: rest)
    | '$' :: '\x7b' :: rest => (expansion nested ctx).read ('$' :: '\x7b' :: rest)
    | '$' :: '[' :: rest => (arithmeticExpansion nested ctx).read ('$' :: '[' :: rest)
    | '$' :: '\x60' :: rest => if ctx.tick then none else (backquoted nested).read ('$' :: '\x60' :: rest)
    | '$' :: rest => simpleExpansion.read ('$' :: rest)
    | _ => none⟩

/-- A text in double quotes. Each line of it has content of its own, and a dollar sign that begins nothing is text. -/
def string (nested : Nested) (ctx : Context) : Reader :=
  let content := node "string_content" (scan Lexeme.quoted?)
  let backquote := if ctx.tick then fail else backquoted nested
  node "string" (text "\"" >>
    many (firstOf [
      content,
      blanks true,
      dollar nested { ctx with brace := false, bracket := false },
      ahead (Lexeme.headIs (· == '$')) >> take 1 >> content,
      ahead (Lexeme.headIs (· == '\x60')) >> backquote]) >>
    optional (text "$") >> text "\"")

def plainWord (nested : Nested) (ctx : Context) (hash : Bool) : Reader :=
  ⟨fun input =>
    match Lexeme.wordFrom? hash input with
    | none => none
    | some n =>
      match Lexeme.number? input with
      | none => (node "word" (take n)).read input
      | some m =>
        if m = n then (node "number" (take n)).read input
        else if n = m + 1 ∧ Lexeme.headIs (· == '#') (input.drop m) then
          (node "number" (take n >> nested.dollar ctx) <|> node "word" (take n)).read input
        else (node "word" (take n)).read input⟩

def braceRange : Reader :=
  ⟨fun input =>
    match Lexeme.braceRange? input with
    | none => none
    | some (a, b) =>
      (node "brace_expression" (text "\x7b" >> node "number" (take a) >> text ".." >> node "number" (take b) >>
        text "\x7d")).read input⟩

def piece (nested : Nested) (ctx : Context) (hash : Bool) : Reader :=
  let bracketWord := node "word" (take 1)
  byHead fun
    | '"' => string nested ctx
    | '\x27' => rawString
    | '$' =>
      firstOf [
        ansiString,
        ahead (fun t => "$\"".toList.isPrefixOf t) >> node "translated_string" (text "$" >> string nested ctx),
        dollar nested ctx]
    | '\x60' => if ctx.tick then fail else backquoted nested
    | '<' => processSubstitution nested ctx
    | '>' => processSubstitution nested ctx
    | '\x7b' => braceRange <|> bracketWord
    | '\x7d' => if ctx.brace then fail else bracketWord
    | '[' => bracketWord
    | ']' => if ctx.bracket then fail else bracketWord
    | _ => plainWord nested ctx hash

/-- Whether the text after a piece goes on with another piece of the same word. A backquote does only if a blank
follows its counterpart, and a backslash only if it escapes a quote or a backslash. -/
def adjoins (ctx : Context) : List Char → Bool
  | [] => false
  | c :: rest =>
    if isBlank c || "><)(;&|".toList.contains c then false
    else if c == '\x7d' then !ctx.brace
    else if c == ']' then !ctx.bracket
    else if c == '\x60' then
      match rest.dropWhile (· != '\x60') with
      | _ :: after => !ctx.tick && (after.isEmpty || Lexeme.headIs isBlank after)
      | [] => false
    else if c == '\\' then Lexeme.headIs (fun x => x == '"' || x == '\x27' || x == '\\') rest
    else true

def word (nested : Nested) (ctx : Context) : Reader :=
  extended "concatenation" (piece nested ctx false)
    (many1 (ahead (adjoins ctx) >> joint >> (piece nested ctx true <|> bareDollar)))

def value (nested : Nested) (ctx : Context) : Reader :=
  extended "concatenation" (piece nested ctx true)
    (many1 (ahead (adjoins ctx) >> joint >> (piece nested ctx true <|> bareDollar)))

end ShellDecl.Shell

import ShellDecl.Shell.Word

/-!
# Expressions

Operators bind by level. The same ladder of levels reads arithmetic, the header of a counting loop and the inside of a
test; they differ in their operands and in the operators they know.
-/

set_option autoImplicit false

namespace ShellDecl.Shell

open Reader

/-- One level of binary operators. A level that groups to the right reads its right side at the same level. -/
structure Level where
  operators : Reader
  right : Bool := false
  /-- Another right side, tried before an operand of the next level. -/
  special : Reader := Reader.fail

def rightChain (kind : String) (operand operator : Reader) (input : List Char) : Option (Reading input) :=
  match operand.read input with
  | none => none
  | some r =>
    match operator.read r.rest with
    | none => some r
    | some q =>
      if _ : q.moved = true then
        match rightChain kind operand operator q.rest with
        | none => some r
        | some s => some (((r.andThen q).andThen s).wrap kind false)
      else some r
termination_by input.length
decreasing_by
  have hq := q.length_rest_lt ‹_›
  have hr := r.length_rest_le
  omega

/-- Reads binary expressions of the given levels, the loosest first, over `operand`. -/
def ladder (operand : Reader) : List Level → Reader
  | [] => operand
  | level :: levels =>
    let next := ladder operand levels
    let operator := gap >> level.operators >> gap
    if level.right then ⟨rightChain "binary_expression" next operator⟩
    else leftChain "binary_expression" next (operator >> (level.special <|> next))

/-- An operator of symbols that none of the given longer operators begins with at this place. -/
def symbols (operators longer : List String) : Reader :=
  ahead (fun t => !longer.any fun s => s.toList.isPrefixOf t) >> firstOf (operators.map text)

def updates : List String :=
  ["**=", "<<=", ">>=", "+=", "-=", "*=", "/=", "%=", "&=", "^=", "|="]

def assignLevels : List Level := [
  { operators := symbols updates [] },
  { operators := symbols ["=~", "="] ["=="] }]

def looseLevels : List Level := [
  { operators := symbols ["||"] [] },
  { operators := symbols ["&&"] [] },
  { operators := symbols ["|"] ["||", "|="] },
  { operators := symbols ["^"] ["^="] },
  { operators := symbols ["&"] ["&&", "&="] },
  { operators := symbols ["==", "!="] [] },
  { operators := symbols ["<=", ">=", "<", ">"] ["<<", ">>"] }]

def tightLevels : List Level := [
  { operators := symbols ["<<", ">>"] ["<<=", ">>="] },
  { operators := symbols ["+", "-"] ["+=", "-=", "++", "--"] },
  { operators := symbols ["*", "/", "%"] ["**", "*=", "/=", "%="] },
  { operators := symbols ["**"] ["**="], right := true }]

def conditional (lower upper : Reader → Reader) (whole : Reader) (operand : Reader) : Reader :=
  let condition := upper operand
  lower (leftChain "ternary_expression" condition
    (gap >> text "?" >> gap >> whole >> gap >> text ":" >> gap >> condition))

def arithmeticOperand (nested : Nested) (ctx : Context) : Reader :=
  let nameOrSubscript :=
    (ahead (fun t =>
        match Lexeme.name? t with
        | some n => Lexeme.headIs (· == '[') (t.drop n)
        | none => false) >> node "subscript" (subscript nested ctx))
      <|> ⟨fun input =>
        match Lexeme.number? input, Lexeme.name? input with
        | some m, some n =>
          if n ≤ m then (node "number" (take m)).read input else (node "variable_name" (take n)).read input
        | some m, none => (node "number" (take m)).read input
        | none, some n => (node "variable_name" (take n)).read input
        | none, none => none⟩
  let sign := symbols ["!", "-", "+", "~"] ["++", "--", "!="]
  let base := node "number" (scan (fun t =>
      match Lexeme.number? t with
      | some m => if "#$".toList.isPrefixOf (t.drop m) then some (m + 1) else none
      | none => none) >> nested.dollar ctx)
  let step := firstOf [text "++", text "--"]
  firstOf [
    base,
    leftChain "postfix_expression" (firstOf [
        nested.dollar ctx,
        nested.string ctx,
        rawString,
        nameOrSubscript,
        node "parenthesized_expression" (text "(" >> gap >> nested.arithmetic ctx >> gap >> text ")"),
        if ctx.tick then fail else backquoted nested])
      (gap >> step),
    node "unary_expression" (step >> gap >> nested.tightArithmetic ctx),
    node "unary_expression" (sign >> gap >> nested.tightArithmetic ctx)]

def tightArithmetic (nested : Nested) (ctx : Context) : Reader :=
  ladder (arithmeticOperand nested ctx) tightLevels

def arithmetic (nested : Nested) (ctx : Context) : Reader :=
  conditional (ladder · assignLevels) (ladder · (looseLevels ++ tightLevels)) (nested.arithmetic ctx)
    (arithmeticOperand nested ctx)

def loopOperand (nested : Nested) (ctx : Context) : Reader :=
  let step := firstOf [text "++", text "--"]
  firstOf [
    leftChain "postfix_expression" (firstOf [
        nested.dollar ctx,
        nested.string ctx,
        ⟨fun input =>
          match Lexeme.number? input with
          | some m => (node "number" (take m)).read input
          | none => (node "word" (scan Lexeme.name?)).read input⟩,
        node "parenthesized_expression" (text "(" >> gap >> nested.loopExpression ctx >>
          many (gap >> text "," >> gap >> nested.loopExpression ctx) >> gap >> text ")")])
      (gap >> step),
    node "unary_expression" (step >> gap >> nested.tightLoopExpression ctx)]

def tightLoopExpression (nested : Nested) (ctx : Context) : Reader :=
  ladder (loopOperand nested ctx) tightLevels

/-- An expression in the header of a counting loop: names are words, and one that is assigned to is a variable. -/
def loopExpression (nested : Nested) (ctx : Context) : Reader :=
  (ahead (fun t =>
      match Lexeme.name? t with
      | some n =>
        let rest := (t.drop n).dropWhile isBlank
        Lexeme.headIs (· == '=') rest && !Lexeme.headIs (· == '=') (rest.drop 1)
      | none => false) >>
    node "variable_assignment" (nameNode "variable_name" (scan Lexeme.name?) >> gap >> text "=" >> gap >>
      nested.loopExpression ctx))
  <|> ladder (loopOperand nested ctx) ({ operators := symbols updates [] } :: looseLevels ++ tightLevels)

def testSymbols (operators : List String) : Reader :=
  firstOf (operators.map fun s => keyword s)

def globPattern (nested : Nested) (ctx : Context) : Reader :=
  let glob := node "extglob_pattern" (scan Lexeme.glob?)
  glob >> optional (ahead (Lexeme.headIs fun c => c == '"' || c == '$') >>
    (nested.string ctx <|> nested.dollar ctx) >> optional glob)

def testOperand (nested : Nested) (double : Bool) (ctx : Context) : Reader :=
  firstOf [
    node "unary_expression" (keyword "!" >> gap >> nested.negatedTest double ctx),
    node "unary_expression" (node "test_operator" (scan Lexeme.testOperator?) >> gap >> nested.tightTest double ctx),
    node "parenthesized_expression" (text "(" >> gap >> nested.test double ctx >> gap >> text ")"),
    word nested ctx]

def negatedTestLevels : List Level := [
  { operators := testSymbols ["+", "-"] },
  { operators := testSymbols ["*", "/", "%"] }]

def tightTestLevels : List Level :=
  { operators := node "test_operator" (scan Lexeme.testOperator?) } :: negatedTestLevels

def negatedTest (nested : Nested) (double : Bool) (ctx : Context) : Reader :=
  ladder (testOperand nested double ctx) negatedTestLevels

def tightTest (nested : Nested) (double : Bool) (ctx : Context) : Reader :=
  ladder (testOperand nested double ctx) tightTestLevels

def test (nested : Nested) (double : Bool) (ctx : Context) : Reader :=
  let regex := node "regex" (scan Lexeme.matchPattern?)
  ladder (testOperand nested double ctx) ([
    { operators := testSymbols ["=~"], special := regex },
    { operators := testSymbols ["="], special := if double then regex else fail },
    { operators := symbols ["||"] [] },
    { operators := symbols ["&&"] [] },
    { operators := testSymbols ["==", "!="], special := globPattern nested ctx },
    { operators := symbols ["<=", ">=", "<", ">"] [] }] ++ tightTestLevels)

end ShellDecl.Shell

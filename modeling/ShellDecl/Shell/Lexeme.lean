/-!
# Lexemes

How far each kind of word, number, pattern and comment runs at the head of a text. A scan answers the number of
characters, or nothing where the text does not begin with such a lexeme. Letters and digits are those of ASCII.
-/

set_option autoImplicit false

namespace ShellDecl.Shell

/-- The six blank characters; a line break is one of them. -/
def isBlank (c : Char) : Bool :=
  c == ' ' || c == '\t' || c == '\n' || c == '\r' || c.toNat == 11 || c.toNat == 12

def isInlineBlank (c : Char) : Bool :=
  isBlank c && c != '\n'

def isNameStart (c : Char) : Bool :=
  c.isAlpha || c == '_'

def isNameChar (c : Char) : Bool :=
  c.isAlphanum || c == '_'

def isSpecial (c : Char) : Bool :=
  isBlank c || "'\"<>\x7b\x7d[]()\x60$|&;\\".toList.contains c

namespace Lexeme

def headIs (test : Char → Bool) : List Char → Bool
  | [] => false
  | c :: _ => test c

/-- Extends `count` over what only separates: blanks, line breaks if `lines` holds, line continuations, and blanks
that are escaped outside of a word. -/
def blanks (lines : Bool) (count : Nat) : List Char → Nat
  | '\\' :: '\r' :: '\n' :: rest => blanks lines (count + 3) rest
  | '\\' :: c :: rest => if isBlank c && c != '\r' then blanks lines (count + 2) rest else count
  | c :: rest => if isInlineBlank c || (lines && c == '\n') then blanks lines (count + 1) rest else count
  | [] => count

def wordTail (count : Nat) : List Char → Nat
  | '\\' :: c :: rest => if isBlank c && c != ' ' then count else wordTail (count + 2) rest
  | c :: rest => if isSpecial c then count else wordTail (count + 1) rest
  | [] => count

/-- A word does not start with `#` unless it goes on from another piece. -/
def wordFrom? (hash : Bool) : List Char → Option Nat
  | '\\' :: c :: rest => if isBlank c then none else some (wordTail 2 rest)
  | c :: rest =>
    if isSpecial c || (c == '#' && !hash) then none else some (wordTail 1 rest)
  | [] => none

def word? : List Char → Option Nat :=
  wordFrom? false

def countWhile (test : Char → Bool) (text : List Char) : Nat :=
  (text.takeWhile test).length

def name? (text : List Char) : Option Nat :=
  match countWhile isNameChar text with
  | 0 => none
  | n => some n

/-- A sign and digits, with `0x` before them or a base and `#` between them. -/
def number? (text : List Char) : Option Nat :=
  let sign := if headIs (· == '-') text then 1 else 0
  let body := text.drop sign
  let digits := countWhile Char.isDigit body
  let hex :=
    match body with
    | '0' :: 'x' :: rest => let n := countWhile Char.isDigit rest; if n == 0 then 0 else n + 2
    | _ => 0
  let length := max digits hex
  if length == 0 then none
  else
    match body.drop length with
    | '#' :: rest =>
      let based := countWhile (fun c => isNameChar c || c == '@') rest
      some (sign + length + (if based == 0 then 0 else based + 1))
    | _ => some (sign + length)

def isWord (s : String) (text : List Char) : Bool :=
  s.toList.isPrefixOf text && word? text == some s.length

/-- Whether the name at the head of a text is all of the word there, with nothing joined to it. -/
def loneName? (text : List Char) : Option Nat :=
  match name? text with
  | some n => if word? text == some n then some n else none
  | none => none

/-- A name in front of an assignment: it starts with a letter or `_`, and is more than `_` alone. -/
def assigned? (text : List Char) : Option Nat :=
  match text with
  | c :: rest =>
    let n := 1 + countWhile isNameChar rest
    if isNameStart c || (c.isDigit && c != '0') then
      if c == '_' && n == 1 then none
      else
        match text.drop n with
        | '=' :: _ => some n
        | '+' :: '=' :: _ => some n
        | '[' :: _ => if c.isDigit then none else some n
        | _ => none
    else none
  | [] => none

def testOperator? : List Char → Option Nat
  | '-' :: rest =>
    let n := countWhile Char.isAlpha rest
    if n != 0 && headIs isBlank (rest.drop n) then some (n + 1) else none
  | _ => none

def comment? : List Char → Option Nat
  | '#' :: rest => some (1 + countWhile (· != '\n') rest)
  | _ => none

def rawString? : List Char → Option Nat
  | '\x27' :: rest =>
    let n := countWhile (· != '\x27') rest
    if headIs (· == '\x27') (rest.drop n) then some (n + 2) else none
  | _ => none

def escapedQuoteEnd? (count : Nat) : List Char → Option Nat
  | '\\' :: _ :: rest => escapedQuoteEnd? (count + 2) rest
  | '\x27' :: _ => some (count + 1)
  | _ :: rest => escapedQuoteEnd? (count + 1) rest
  | [] => none

def ansiString? : List Char → Option Nat
  | '$' :: '\x27' :: rest => escapedQuoteEnd? 2 rest
  | _ => none

def quotedTail (count : Nat) : List Char → Nat
  | '\\' :: '\r' :: '\n' :: rest => quotedTail (count + 3) rest
  | '\\' :: _ :: rest => quotedTail (count + 2) rest
  | c :: rest =>
    if c == '"' || c == '\x60' || c == '$' || c == '\\' || c == '\r' || c == '\n' then count
    else quotedTail (count + 1) rest
  | [] => count

def quoted? (text : List Char) : Option Nat :=
  match quotedTail 0 text with
  | 0 => none
  | n => if (text.take n).all isBlank then none else some n

def braceRange? : List Char → Option (Nat × Nat)
  | '\x7b' :: rest =>
    let a := countWhile Char.isDigit rest
    match rest.drop a with
    | '.' :: '.' :: rest' =>
      let b := countWhile Char.isDigit rest'
      if a != 0 && b != 0 && headIs (· == '\x7d') (rest'.drop b) then some (a, b) else none
    | _ => none
  | _ => none

/-- Open brackets of each kind, and what a pattern has shown so far. -/
structure Depth where
  paren : Nat := 0
  bracket : Nat := 0
  brace : Nat := 0
  quoted : Bool := false

def Depth.after? (d : Depth) (escaped : Bool) : Char → Option Depth
  | '(' => some { d with paren := d.paren + 1 }
  | '[' => some { d with bracket := d.bracket + 1 }
  | '\x7b' => some (if escaped then d else { d with brace := d.brace + 1 })
  | ')' => if d.paren == 0 then none else some { d with paren := d.paren - 1 }
  | ']' => if d.bracket == 0 then none else some { d with bracket := d.bracket - 1 }
  | '\x7d' => if d.brace == 0 then none else some { d with brace := d.brace - 1 }
  | _ => some d

/-- Up to the bracket that the pattern did not open; `kept` is the length without blanks at the end. -/
def patternEnd? (d : Depth) (escaped : Bool) (count kept : Nat) : List Char → Option Nat
  | [] => none
  | c :: rest =>
    if c == '\x27' then patternEnd? { d with quoted := !d.quoted } false (count + 1) (count + 1) rest
    else
      match d.after? escaped c with
      | none => some kept
      | some d' =>
        let kept' := if d.quoted || !isBlank c || d'.paren > 0 then count + 1 else kept
        patternEnd? d' (c == '\\') (count + 1) kept' rest

def removalPattern? (text : List Char) : Option Nat :=
  match text with
  | '"' :: _ => none
  | '\x27' :: _ => none
  | _ =>
    match patternEnd? {} false 0 0 text with
    | some 0 => none
    | found => found

def slashPatternEnd? (d : Depth) (count kept : Nat) : List Char → Option Nat
  | [] => none
  | '/' :: _ => some count
  | '\\' :: c :: rest =>
    if c == '[' || c == '/' then slashPatternEnd? d (count + 1) kept (c :: rest)
    else slashPatternEnd? d (count + 2) (count + 2) rest
  | c :: rest =>
    if c == '\x27' then slashPatternEnd? { d with quoted := !d.quoted } (count + 1) (count + 1) rest
    else
      match d.after? false c with
      | none => some kept
      | some d' => slashPatternEnd? d' (count + 1) (if d.quoted || !isBlank c then count + 1 else kept) rest

def replacedPattern? (text : List Char) : Option Nat :=
  match text with
  | '"' :: _ => none
  | _ =>
    match slashPatternEnd? {} 0 0 text with
    | some 0 => none
    | found => found

/-- Up to a blank outside of parentheses. A pattern that holds nothing but letters, digits, `$`, `-` and `_` is left
to be read as a word. -/
def blankEndedPattern? (d : Depth) (special : Bool) (count : Nat) : List Char → Option Nat
  | [] => none
  | '\\' :: _ :: rest => blankEndedPattern? d true (count + 2) rest
  | '$' :: '(' :: _ => none
  | '$' :: c :: rest =>
    if isBlank c then some (count + 1) else blankEndedPattern? d special (count + 1) (c :: rest)
  | c :: rest =>
    if isBlank c && d.paren == 0 then (if special then some count else none)
    else
      match d.after? false c with
      | none => some count
      | some d' =>
        blankEndedPattern? d' (special || !(c.isAlphanum || c == '$' || c == '-' || c == '_')) (count + 1) rest

def matchPattern? (text : List Char) : Option Nat :=
  match text with
  | '"' :: _ => none
  | _ =>
    match blankEndedPattern? {} false 0 text with
    | some 0 => none
    | found => found

/-- The rest of a glob pattern whose first characters have been seen; `special` tells whether it has shown anything
but letters, dots and backslashes. -/
def globTail? (d : Depth) (special : Bool) (count : Nat) : List Char → Option Nat
  | [] => none
  | c :: rest =>
    match d.after? false c with
    | none => if special then some count else none
    | some d' =>
      if c == '|' && d'.paren == 0 && d'.bracket == 0 && d'.brace == 0 then some count
      else if isBlank c || c == '"' then (if special then some count else none)
      else if c == '$' && headIs (fun x => x == '(' || x == '\x7b') rest then some count
      else if c == '\\' then
        match rest with
        | x :: rest' =>
          if isBlank x || x == '"' then globTail? d' special (count + 2) rest'
          else globTail? d' special (count + 1) (x :: rest')
        | [] => none
      else globTail? d' (special || !(c.isAlpha || c == '.')) (count + 1) rest
termination_by text => text.length

/-- A glob pattern on the right of a comparison or in front of a case item. A plain word is no pattern, unless it is
one letter with a blank after it or ends at a bar. -/
def glob? (text : List Char) : Option Nat :=
  match text with
  | [] => none
  | c :: rest =>
    if !(c.isAlpha || "?*+@!-.[".toList.contains c) then none
    else if isWord "esac" text then none
    else
      let special := !c.isAlpha
      let (count, rest) := if c == '[' then (0, text) else (1, rest)
      match rest with
      | [] => none
      | x :: rest' =>
        if x == '-' then
          let n := countWhile Char.isAlphanum rest'
          match rest'.drop n with
          | ')' :: _ => none
          | '\\' :: _ => none
          | '.' :: _ => none
          | _ => globTail? {} special (count + 1 + n) (rest'.drop n)
        else if x == ')' then
          if headIs isBlank rest' then (if special then some count else none) else none
        else if isBlank x then some count
        else if x == '$' && headIs (fun y => y == '(' || y == '\x7b') rest' then some count
        else if x == '|' then some count
        else if x.isAlphanum || "(\"[?/\\_*".toList.contains x then globTail? {} special count rest
        else none

end Lexeme

end ShellDecl.Shell

import ShellDecl.Shell.Word

/-!
# Here-documents

A redirect from the lines that follow, up to a line that begins with the delimiter. Unless the delimiter is quoted the
lines are read for expansions.
-/

set_option autoImplicit false

namespace ShellDecl.Shell

open Reader

namespace Heredoc

structure Delimiter where
  /-- The characters of the announcement, quotes and backslashes included. -/
  length : Nat
  /-- The characters that end the document. -/
  word : List Char
  raw : Bool

def plainDelimiter (count : Nat) (word : List Char) : List Char → Nat × List Char
  | '\\' :: c :: rest => plainDelimiter (count + 2) (c :: word) rest
  | c :: rest => if isBlank c then (count, word.reverse) else plainDelimiter (count + 1) (c :: word) rest
  | [] => (count, word.reverse)

def quotedDelimiter (quote : Char) (count : Nat) (word : List Char) : List Char → Nat × List Char
  | '\\' :: c :: rest => quotedDelimiter quote (count + 2) (c :: word) rest
  | c :: rest =>
    if c == quote then (count + 1, word.reverse)
    else if c == '\n' || c == '\r' then (count, word.reverse)
    else quotedDelimiter quote (count + 1) (c :: word) rest
  | [] => (count, word.reverse)

def delimiter? (text : List Char) : Option Delimiter :=
  match text with
  | [] => none
  | c :: rest =>
    let (length, word) :=
      if c == '"' || c == '\x27' then quotedDelimiter c 1 [] rest else plainDelimiter 0 [] text
    if word.isEmpty then none else some ⟨length, word, c == '"' || c == '\x27' || c == '\\'⟩

/-- Where a stretch of plain lines ends: in front of an expansion, or in front of the delimiter. -/
inductive Stop where
  | expansion
  | delimiter

structure Stretch where
  skipped : Nat
  length : Nat
  stop : Stop

/-- Scans plain lines. `first` tells whether an expansion at once ends an empty stretch, `begun` whether a character
was taken, and `column` whether a line begins here. -/
def stretch? (d : Delimiter) (indent first : Bool) (skipped length : Nat) (begun column : Bool) :
    List Char → Option Stretch
  | [] => none
  | '\n' :: rest =>
    let (skipped, length) := if begun then (skipped, length + 1) else (skipped + 1, length)
    let blank := if indent then Lexeme.countWhile isInlineBlank rest else 0
    if d.word.isPrefixOf (rest.drop blank) then some ⟨skipped, length + blank, .delimiter⟩
    else stretch? d indent first skipped length true (blank == 0) rest
  | '\\' :: _ :: rest => stretch? d indent first skipped (length + 2) true false rest
  | '$' :: rest =>
    if d.raw then stretch? d indent first skipped (length + 1) true false rest
    else if begun then
      if Lexeme.headIs (fun c => c.isAlpha || c == '\x7b' || c == '(') rest then some ⟨skipped, length, .expansion⟩
      else stretch? d indent first skipped (length + 1) true false rest
    else if first && column then some ⟨skipped, length, .expansion⟩
    else none
  | c :: rest =>
    if column && isBlank c && !begun then stretch? d indent first (skipped + 1) length false true rest
    else stretch? d indent first skipped (length + 1) true false rest

def firstStretch? (d : Delimiter) (indent : Bool) (text : List Char) : Option Stretch :=
  let blank := Lexeme.countWhile isInlineBlank text
  if d.word.isPrefixOf (if indent then text.drop blank else text) then
    some ⟨if indent then blank else 0, 0, .delimiter⟩
  else stretch? d indent true 0 0 false true text

def content (d : Delimiter) (indent : Bool) : Reader :=
  ⟨fun input =>
    match stretch? d indent false 0 0 false false input with
    | none => none
    | some s =>
      (optional (ahead (fun _ => s.skipped != 0) >> take s.skipped) >>
        node "heredoc_content" (take s.length)).read input⟩

def body (nested : Nested) (ctx : Context) (d : Delimiter) (indent : Bool) : Reader :=
  ⟨fun input =>
    match firstStretch? d indent input with
    | none => none
    | some s =>
      let expansions := many (ahead (fun t => !d.word.isPrefixOf t) >>
        (dollar nested ctx <|> (if ctx.tick then fail else backquoted nested) <|> content d indent))
      let lines :=
        match s.stop with
        | .delimiter => take s.length
        | .expansion => (if s.length = 0 then joint else take s.length) >> expansions
      (optional (ahead (fun _ => s.skipped != 0) >> take s.skipped) >>
        node "heredoc_body" lines >>
        node "heredoc_end" (ahead d.word.isPrefixOf >> take d.word.length)).read input⟩

end Heredoc

end ShellDecl.Shell

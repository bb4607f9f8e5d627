import ShellDecl.Toml.Number
import ShellDecl.Toml.Text

/-!
# TOML statements

A file is a list of statements: a pair of a key and a value, the header of a table, or the header of a further table of
a list. The readers answer what they read and what follows it, or nothing where the text is not well formed. Values in
braces are put together as soon as they are read, by the rule for dotted keys that whole tables follow too.
-/

set_option autoImplicit false

namespace ShellDecl.Toml

/-! ## Adding to tables -/

/-- Changes the table that a path leads to, making the tables on the way that are missing. A dotted key does not go
through a table that has a header of its own, and nothing goes through a value. -/
def Table.update (dotted : Bool) (change : Table → Option Table) : List Key → Table → Option Table
  | [], t => change t
  | k :: path, t =>
    match t.find? k.name with
    | none => do
      let made ← update dotted change path (.mk (if dotted then .dotted else .implied) none [])
      return t.push k (.table made)
    | some (.table inner) =>
      if inner.origin = .inline ∨ (dotted ∧ inner.origin = .header) then none
      else (update dotted change path inner).map fun new => t.replace k.name (.table new)
    | some (.tables elements) =>
      match elements.getLast? with
      | none => none
      | some last =>
        (update dotted change path last).map fun new => t.replace k.name (.tables (elements.dropLast ++ [new]))
    | some _ => none

/-- Adds a pair whose key is the last of a dotted key. What a dotted key extends was made by dotted keys. -/
def Table.insert (t : Table) (path : List Key) (k : Key) (v : Item) : Option Table :=
  t.update true (fun last =>
    if (last.origin == .dotted) == path.isEmpty || (last.find? k.name).isSome then none
    else some (last.push k v)) path

/-! ## Reading -/

structure Pair where
  path : List Key
  key : Key
  value : Item

inductive Statement where
  | pair (p : Pair)
  | header (path : List Key) (key : Key) (span : Span)
  | element (path : List Key) (key : Key) (span : Span)

def skipBlanks (text : List Char) : List Char :=
  text.dropWhile isInlineBlank

def skipComment : List Char → List Char
  | '#' :: rest => rest.dropWhile isPlain
  | text => text

def lineEnd? (text : List Char) : Option (List Char) :=
  match skipComment (skipBlanks text) with
  | [] => some []
  | rest => Quoted.afterNewline? rest

def isBareKey (c : Char) : Bool :=
  c.isAlphanum || c == '-' || c == '_'

def simpleKey? (text : List Char) : Option (Key × List Char) :=
  match text with
  | [] => none
  | c :: _ =>
    if c = '"' || c = '\x27' then
      (Quoted.line text).map fun (name, rest) => (⟨String.ofList name, .between text rest⟩, rest)
    else
      match text.takeWhile isBareKey with
      | [] => none
      | name =>
        let rest := text.drop name.length
        some (⟨String.ofList name, .between text rest⟩, rest)

def maxDepth : Nat := 79

/-- A dotted key of a number of parts at most: the parts in front of the last, and the last. -/
def key? : Nat → List Char → Option (List Key × Key × List Char)
  | 0, _ => none
  | n + 1, text => do
    let (k, rest) ← simpleKey? (skipBlanks text)
    match skipBlanks rest with
    | '.' :: rest' =>
      let (path, last, more) ← key? n rest'
      return (k :: path, last, more)
    | rest' => return ([], k, rest')

def skipLines : Nat → List Char → List Char
  | 0, text => text
  | n + 1, text =>
    match text with
    | '#' :: rest =>
      match Quoted.afterNewline? (rest.dropWhile isPlain) with
      | some rest' => skipLines n rest'
      | none => text
    | c :: rest =>
      if isInlineBlank c then skipLines n rest
      else
        match Quoted.afterNewline? (c :: rest) with
        | some rest' => skipLines n rest'
        | none => text
    | [] => []

def skipSpaces (text : List Char) : List Char :=
  skipLines text.length text

def scalar? (text : List Char) : Option (Scalar × List Char) :=
  match text with
  | [] => none
  | c :: _ =>
    if c = '"' || c = '\x27' then (Quoted.read text).map fun (s, rest) => (.string (String.ofList s), rest)
    else
      match text with
      | 't' :: 'r' :: 'u' :: 'e' :: rest => some (.boolean true, rest)
      | 'f' :: 'a' :: 'l' :: 's' :: 'e' :: rest => some (.boolean false, rest)
      | _ => Number.read text

def inlineTable (span : Span) (pairs : List Pair) : Option Item := do
  let t ← pairs.foldlM (fun (t : Table) p => t.insert p.path p.key p.value) (.mk .inline (some span) [])
  return .table t

mutual

/-- A value that nests a number of levels at most. Every step takes a character or follows one that does, so a fuel of
twice the length is never used up. -/
def value? : Nat → Nat → List Char → Option (Item × List Char)
  | 0, _, _ => none
  | fuel + 1, depth, text =>
    match text with
    | '[' :: rest =>
      match depth with
      | 0 => none
      | depth + 1 => do
        let (items, more) ← items? fuel depth rest
        return (.array (.between text more) items, more)
    | '\x7b' :: rest =>
      match depth with
      | 0 => none
      | depth + 1 => do
        let (pairs, more) ← pairs? fuel depth true rest
        return (← inlineTable (.between text more) pairs, more)
    | _ => (scalar? text).map fun (v, rest) => (.scalar (.between text rest) v, rest)

def items? : Nat → Nat → List Char → Option (List Item × List Char)
  | 0, _, _ => none
  | fuel + 1, depth, text =>
    match skipSpaces text with
    | ']' :: rest => some ([], rest)
    | start => do
      let (v, rest) ← value? fuel depth start
      match skipSpaces rest with
      | ']' :: more => return ([v], more)
      | ',' :: more =>
        let (vs, more) ← items? fuel depth more
        return (v :: vs, more)
      | _ => none

def pairs? : Nat → Nat → Bool → List Char → Option (List Pair × List Char)
  | 0, _, _, _ => none
  | fuel + 1, depth, first, text =>
    match first, skipBlanks text with
    | true, '\x7d' :: rest => some ([], rest)
    | _, start => do
      let (path, k, rest) ← key? maxDepth start
      match rest with
      | '=' :: rest =>
        let (v, rest) ← value? fuel depth (skipBlanks rest)
        match skipBlanks rest with
        | '\x7d' :: more => return ([⟨path, k, v⟩], more)
        | ',' :: more =>
          let (ps, more) ← pairs? fuel depth false more
          return (⟨path, k, v⟩ :: ps, more)
        | _ => none
      | _ => none

end

def value (text : List Char) : Option (Item × List Char) :=
  value? (2 * text.length + 1) maxDepth text

def statement? (text : List Char) : Option (Statement × List Char) :=
  match text with
  | '[' :: '[' :: rest => do
    let (path, k, rest) ← key? maxDepth rest
    match rest with
    | ']' :: ']' :: rest => return (.element path k (.between text rest), ← lineEnd? rest)
    | _ => none
  | '[' :: rest => do
    let (path, k, rest) ← key? maxDepth rest
    match rest with
    | ']' :: rest => return (.header path k (.between text rest), ← lineEnd? rest)
    | _ => none
  | text => do
    let (path, k, rest) ← key? maxDepth text
    match rest with
    | '=' :: rest =>
      let (v, rest) ← value (skipBlanks rest)
      return (.pair ⟨path, k, v⟩, ← lineEnd? rest)
    | _ => none

def statements? : Nat → List Char → Option (List Statement)
  | 0, _ => none
  | n + 1, text =>
    match skipBlanks text with
    | [] => some []
    | c :: rest =>
      if c = '#' || c = '\n' || c = '\r' then (lineEnd? (c :: rest)).bind (statements? n)
      else do
        let (s, more) ← statement? (c :: rest)
        return s :: (← statements? n more)

def skipMark : List Char → List Char
  | '\ufeff' :: rest => rest
  | text => text

def readStatements (text : List Char) : Option (List Statement) :=
  statements? (text.length + 1) (skipMark text)

end ShellDecl.Toml

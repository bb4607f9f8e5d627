/-!
# JSON values

The values that answers are made of, and their two printed forms: on one line without blanks, or with an item a line
and two blanks a level. Members keep the order they are given in; `sorted` puts them in the order of their keys.
-/

set_option autoImplicit false

namespace ShellDecl

/-- A number is kept as it is written. -/
inductive Json where
  | null
  | bool (b : Bool)
  | number (digits : String)
  | str (s : String)
  | arr (items : List Json)
  | obj (members : List (String × Json))
  deriving Repr

namespace Json

def nat (n : Nat) : Json :=
  .number (toString n)

def hexDigit (n : Nat) : Char :=
  if n < 10 then Char.ofNat (48 + n) else Char.ofNat (87 + n)

def escape (c : Char) : List Char :=
  if c = '"' then ['\\', '"']
  else if c = '\\' then ['\\', '\\']
  else if c = '\n' then ['\\', 'n']
  else if c = '\r' then ['\\', 'r']
  else if c = '\t' then ['\\', 't']
  else if c.toNat = 8 then ['\\', 'b']
  else if c.toNat = 12 then ['\\', 'f']
  else if c.toNat < 32 then ['\\', 'u', '0', '0', hexDigit (c.toNat / 16), hexDigit (c.toNat % 16)]
  else [c]

def quote (s : String) : String :=
  String.ofList ('"' :: s.toList.flatMap escape ++ ['"'])

mutual

def compact : Json → String
  | .null => "null"
  | .bool b => if b then "true" else "false"
  | .number digits => digits
  | .str s => quote s
  | .arr items => "[" ++ compactItems items ++ "]"
  | .obj members => "\x7b" ++ compactMembers members ++ "\x7d"

def compactItems : List Json → String
  | [] => ""
  | [v] => compact v
  | v :: vs => compact v ++ "," ++ compactItems vs

def compactMembers : List (String × Json) → String
  | [] => ""
  | [(k, v)] => quote k ++ ":" ++ compact v
  | (k, v) :: ms => quote k ++ ":" ++ compact v ++ "," ++ compactMembers ms

end

def newline (depth : Nat) : String :=
  "\n" ++ "".pushn ' ' (2 * depth)

mutual

/-- The indented form of a value that stands `depth` levels deep. An empty list or object stays on one line. -/
def prettyAt (depth : Nat) : Json → String
  | .arr (v :: vs) => "[" ++ prettyItems (depth + 1) (v :: vs) ++ newline depth ++ "]"
  | .obj ((k, v) :: ms) => "\x7b" ++ prettyMembers (depth + 1) ((k, v) :: ms) ++ newline depth ++ "\x7d"
  | v => compact v

def prettyItems (depth : Nat) : List Json → String
  | [] => ""
  | [v] => newline depth ++ prettyAt depth v
  | v :: vs => newline depth ++ prettyAt depth v ++ "," ++ prettyItems depth vs

def prettyMembers (depth : Nat) : List (String × Json) → String
  | [] => ""
  | [(k, v)] => newline depth ++ quote k ++ ": " ++ prettyAt depth v
  | (k, v) :: ms => newline depth ++ quote k ++ ": " ++ prettyAt depth v ++ "," ++ prettyMembers depth ms

end

def pretty (v : Json) : String :=
  prettyAt 0 v

/-- Puts a member in its place among members that are in the order of their keys; of two with one key the new one
stays. -/
def insertMember (k : String) (v : Json) : List (String × Json) → List (String × Json)
  | [] => [(k, v)]
  | (k', v') :: ms =>
    if k < k' then (k, v) :: (k', v') :: ms
    else if k = k' then (k, v) :: ms
    else (k', v') :: insertMember k v ms

mutual

def sorted : Json → Json
  | .arr items => .arr (sortedItems items)
  | .obj members => .obj (sortedMembers members)
  | v => v

def sortedItems : List Json → List Json
  | [] => []
  | v :: vs => sorted v :: sortedItems vs

def sortedMembers : List (String × Json) → List (String × Json)
  | [] => []
  | (k, v) :: ms => insertMember k (sorted v) (sortedMembers ms)

end

end Json

end ShellDecl

/-!
# Paths

A path is a text. Two paths name the same place if they have the same components: repeated slashes and dots in the
middle do not count. The path from a root to what is below it is cut out of the text.
-/

set_option autoImplicit false

namespace ShellDecl.Path

inductive Component where
  | root
  | here
  | parent
  | name (s : List Char)
  deriving DecidableEq, Repr

def segment (text : List Char) : List Char × List Char :=
  (text.takeWhile (· != '/'), (text.dropWhile (· != '/')).drop 1)

/-- Drops the segments that are no components: empty ones and dots. -/
def skipEmpty : List Char → List Char
  | '/' :: rest => skipEmpty rest
  | ['.'] => []
  | '.' :: '/' :: rest => skipEmpty rest
  | text => text

/-- The next component of a text, and what follows it. Only at the very front are a slash and a dot components. -/
def next? (front : Bool) (text : List Char) : Option (Component × List Char) :=
  let body (text : List Char) : Option (Component × List Char) :=
    match skipEmpty text with
    | [] => none
    | rest =>
      let (s, after) := segment rest
      some (if s = ['.', '.'] then .parent else .name s, after)
  if front then
    match text with
    | '/' :: rest => some (.root, rest)
    | ['.'] => some (.here, [])
    | '.' :: '/' :: rest => some (.here, '/' :: rest)
    | text => body text
  else body text

def componentsFrom : Nat → Bool → List Char → List Component
  | 0, _, _ => []
  | n + 1, front, text =>
    match next? front text with
    | some (c, rest) => c :: componentsFrom n false rest
    | none => []

def components (path : String) : List Component :=
  componentsFrom (path.toList.length + 1) true path.toList

/-- What is left of a text behind the given components, and whether that is still all of it. -/
def behind? (front : Bool) (text : List Char) : List Component → Option (Bool × List Char)
  | [] => some (front, text)
  | c :: cs =>
    match next? front text with
    | some (c', rest) => if c' = c then behind? false rest cs else none
    | none => none

def skipEmptyBack : List Char → List Char
  | '/' :: rest => skipEmptyBack rest
  | ['.'] => []
  | '.' :: '/' :: rest => skipEmptyBack rest
  | text => text

def frontOf : List Char → List Char × List Char
  | '/' :: rest => (['/'], rest)
  | ['.'] => (['.'], [])
  | '.' :: '/' :: rest => (['.'], '/' :: rest)
  | text => ([], text)

/-- The path below a root, without slashes at its ends; a path that is not below it stays as it is. -/
def below (root path : String) : String :=
  match behind? true path.toList (components root) with
  | none => path
  | some (true, text) =>
    let (kept, body) := frontOf text
    String.ofList (kept ++ (skipEmptyBack body.reverse).reverse)
  | some (false, text) => String.ofList (skipEmptyBack (skipEmpty text).reverse).reverse

def namesDirectory (path : String) : Bool :=
  match path.toList.reverse with
  | '/' :: _ => true
  | ['.'] => true
  | '.' :: '/' :: _ => true
  | _ => false

def isAbsolute (path : String) : Bool :=
  path.toList.head? == some '/'

/-- A path below another; an absolute one stands for itself. -/
def join (base path : String) : String :=
  if isAbsolute path then path
  else if base.isEmpty || base.toList.getLast? == some '/' then base ++ path
  else base ++ "/" ++ path

end ShellDecl.Path

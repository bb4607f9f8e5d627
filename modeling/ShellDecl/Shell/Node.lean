import ShellDecl.Shell.Phrase

/-!
# Concrete trees

A node of a concrete tree covers a range of bytes of its source, and knows the row and the byte column of both ends,
counted from zero. Joints are kept as unnamed nodes without extent: a cursor on one is in the word and in none of its
pieces. `place` lays phrases out over the text they were read from.
-/

set_option autoImplicit false

namespace ShellDecl.Shell

/-- A place in a source: the bytes before it, the line breaks before it, and the bytes since the last of those. -/
structure Place where
  byte : Nat
  row : Nat
  column : Nat
  deriving DecidableEq, Repr

namespace Place

def origin : Place :=
  ⟨0, 0, 0⟩

def step (p : Place) (c : Char) : Place :=
  if c = '\n' then ⟨p.byte + 1, p.row + 1, 0⟩ else ⟨p.byte + c.utf8Size, p.row, p.column + c.utf8Size⟩

def advance (p : Place) (text : List Char) : Place :=
  text.foldl step p

end Place

structure Point where
  row : Nat
  column : Nat
  deriving DecidableEq, Repr

def Place.point (p : Place) : Point :=
  ⟨p.row, p.column⟩

def Point.lt (p q : Point) : Bool :=
  p.row < q.row || (p.row == q.row && p.column < q.column)

/-- `isName` marks the child that holds the name of its parent. -/
inductive Node where
  | mk (kind : String) (named isName : Bool) (start stop : Place) (children : List Node)
  deriving Repr

namespace Node

mutual

def decEq : (m n : Node) → Decidable (m = n)
  | .mk kind named isName start stop children, .mk kind' named' isName' start' stop' children' =>
    match decEqAll children children' with
    | isTrue h =>
      decidable_of_iff (kind = kind' ∧ named = named' ∧ isName = isName' ∧ start = start' ∧ stop = stop') (by simp [h])
    | isFalse h => isFalse (by simp [h])

def decEqAll : (ms ns : List Node) → Decidable (ms = ns)
  | [], [] => isTrue rfl
  | [], _ :: _ => isFalse (by simp)
  | _ :: _, [] => isFalse (by simp)
  | m :: ms, n :: ns =>
    match decEq m n, decEqAll ms ns with
    | isTrue h, isTrue h' => isTrue (by rw [h, h'])
    | isFalse h, _ => isFalse (by simp [h])
    | _, isFalse h => isFalse (by simp [h])

end

instance : DecidableEq Node := decEq

def kind : Node → String
  | .mk kind _ _ _ _ _ => kind

def named : Node → Bool
  | .mk _ named _ _ _ _ => named

def isName : Node → Bool
  | .mk _ _ isName _ _ _ => isName

def start : Node → Place
  | .mk _ _ _ start _ _ => start

def stop : Node → Place
  | .mk _ _ _ _ stop _ => stop

def children : Node → List Node
  | .mk _ _ _ _ _ children => children

def namedChildren (n : Node) : List Node :=
  n.children.filter named

def nameChild? (n : Node) : Option Node :=
  n.children.find? isName

/-- Whether a cursor at `p` is past the node. A node without extent is still under a cursor at its place. -/
def isBefore (n : Node) (p : Point) : Bool :=
  if n.start.point = n.stop.point then n.stop.point.lt p else !p.lt n.stop.point

mutual

/-- The smallest named node under a cursor, searched in `n`, with its parent. `best` is the answer so far. -/
def under (p : Point) (parent : Option Node) (best : Node × Option Node) : Node → Node × Option Node
  | .mk kind named isName start stop children =>
    let n := Node.mk kind named isName start stop children
    let best := if named then (n, parent) else best
    underAll p (some n) best children

def underAll (p : Point) (parent : Option Node) (best : Node × Option Node) : List Node → Node × Option Node
  | [] => best
  | c :: cs =>
    if c.isBefore p then underAll p parent best cs
    else if p.lt c.start.point then best
    else under p parent best c

end

/-- The smallest named node of a tree under a cursor, the root if there is none, and its parent. -/
def descendantAt (root : Node) (p : Point) : Node × Option Node :=
  under p none (root, none) root

end Node

mutual

def Phrase.place (p : Place) : Phrase → List Node × Place
  | .text cs => ([], p.advance cs)
  | .joint => ([.mk "" false false p p []], p)
  | .node kind isName parts =>
    let (children, stop) := Phrase.placeAll p parts
    ([.mk kind true isName p stop children], stop)

def Phrase.placeAll (p : Place) : List Phrase → List Node × Place
  | [] => ([], p)
  | part :: parts =>
    let (nodes, q) := Phrase.place p part
    let (more, stop) := Phrase.placeAll q parts
    (nodes ++ more, stop)

end

end ShellDecl.Shell

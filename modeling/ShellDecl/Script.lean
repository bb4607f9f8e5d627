import ShellDecl.Extent

/-!
# Script trees

The tree that a declaration is looked up in. Only the shapes that can declare a symbol are told apart. A walk
visits the nodes in document order, a node before its children, and a visitor prunes or ends it.
-/

set_option autoImplicit false

namespace ShellDecl

inductive Script where
  | function (extent : Extent) (name : String) (body : List Script)
  | variableName (extent : Extent)
  | other (extent : Extent) (label : Option String) (children : List Script)
  deriving Repr

namespace Script

def extent : Script → Extent
  | .function e _ _ => e
  | .variableName e => e
  | .other e _ _ => e

def children : Script → List Script
  | .function _ _ body => body
  | .variableName _ => []
  | .other _ _ children => children

def isLeaf (t : Script) : Bool :=
  t.children.isEmpty

/-- A label is kept by a node that declares nothing and lost on the other two shapes. -/
def withLabel (t : Script) (label : String) : Script :=
  match t with
  | .other e _ children => .other e (some label) children
  | t => t

mutual

def size : Script → Nat
  | .function _ _ body => 1 + sizeAll body
  | .variableName _ => 1
  | .other _ _ children => 1 + sizeAll children

def sizeAll : List Script → Nat
  | [] => 0
  | t :: ts => size t + sizeAll ts

end

mutual

def preorder : Script → List Script
  | .function e name body => .function e name body :: preorderAll body
  | .variableName e => [.variableName e]
  | .other e label children => .other e label children :: preorderAll children

def preorderAll : List Script → List Script
  | [] => []
  | t :: ts => preorder t ++ preorderAll ts

end

inductive Action (α : Type) where
  | proceed
  | skip
  | stop (result : α)
  deriving Repr

/-- A hook for each shape. A hook that is left out lets the walk proceed. -/
structure Visitor (α : Type) where
  onFunction : Script → String → Action α := fun _ _ => .proceed
  onVariable : Script → Action α := fun _ => .proceed
  onOther : Script → Action α := fun _ => .proceed

def Visitor.visit {α : Type} (v : Visitor α) : Script → Action α
  | .function e name body => v.onFunction (.function e name body) name
  | .variableName e => v.onVariable (.variableName e)
  | .other e label children => v.onOther (.other e label children)

mutual

/-- The nodes that a walk visits, in order, and the result of the node that stopped it. -/
def explore {α : Type} (v : Visitor α) : Script → List Script × Option α
  | .function e name body =>
    let t := Script.function e name body
    match v.visit t with
    | .stop result => ([t], some result)
    | .skip => ([t], none)
    | .proceed => let (seen, result) := exploreAll v body; (t :: seen, result)
  | .variableName e =>
    let t := Script.variableName e
    match v.visit t with
    | .stop result => ([t], some result)
    | _ => ([t], none)
  | .other e label children =>
    let t := Script.other e label children
    match v.visit t with
    | .stop result => ([t], some result)
    | .skip => ([t], none)
    | .proceed => let (seen, result) := exploreAll v children; (t :: seen, result)

def exploreAll {α : Type} (v : Visitor α) : List Script → List Script × Option α
  | [] => ([], none)
  | t :: ts =>
    match explore v t with
    | (seen, some result) => (seen, some result)
    | (seen, none) => let (more, result) := exploreAll v ts; (seen ++ more, result)

end

mutual

/-- The result of the first node that stops the walk. -/
def walk {α : Type} (v : Visitor α) : Script → Option α
  | .function e name body =>
    match v.visit (.function e name body) with
    | .stop result => some result
    | .skip => none
    | .proceed => walkAll v body
  | .variableName e =>
    match v.visit (.variableName e) with
    | .stop result => some result
    | _ => none
  | .other e label children =>
    match v.visit (.other e label children) with
    | .stop result => some result
    | .skip => none
    | .proceed => walkAll v children

def walkAll {α : Type} (v : Visitor α) : List Script → Option α
  | [] => none
  | t :: ts =>
    match walk v t with
    | some result => some result
    | none => walkAll v ts

end

end Script

end ShellDecl

/-!
# Occurrences

The leftmost place where one text occurs in another.
-/

set_option autoImplicit false

namespace ShellDecl.Text

/-- The number of characters before the leftmost occurrence of `needle`, when the search starts `before` characters
into the text. -/
def indexFrom? (needle : List Char) (before : Nat) : List Char → Option Nat
  | [] => if needle.isEmpty then some before else none
  | c :: rest => if needle.isPrefixOf (c :: rest) then some before else indexFrom? needle (before + 1) rest

def indexOf? (needle text : List Char) : Option Nat :=
  indexFrom? needle 0 text

end ShellDecl.Text

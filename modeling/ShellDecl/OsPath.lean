import ShellDecl.Path

/-!
# Paths of the operating system

A path of the operating system is a list of bytes, and need not be the UTF-8 of a text. It is taken apart between its
bytes as a text is between its characters. Where a path is shown, bytes that belong to no character are lost: a
replacement character stands for each longest sequence that begins a character and does not end it.
-/

set_option autoImplicit false

namespace ShellDecl

structure OsPath where
  bytes : List UInt8
  deriving DecidableEq, Repr

namespace OsPath

def ofText (text : String) : OsPath :=
  ⟨text.toList.flatMap String.utf8EncodeChar⟩

/-- The bytes as a text of characters with the same numbers. -/
def letters (p : OsPath) : String :=
  String.ofList (p.bytes.map Char.ofUInt8)

def ofLetters (text : String) : OsPath :=
  ⟨text.toList.map Char.toUInt8⟩

def components (p : OsPath) : List Path.Component :=
  Path.components p.letters

def isAbsolute (p : OsPath) : Bool :=
  Path.isAbsolute p.letters

def join (base p : OsPath) : OsPath :=
  ofLetters (Path.join base.letters p.letters)

def below (root p : OsPath) : OsPath :=
  ofLetters (Path.below root.letters p.letters)

/-- Whether a character of three or four bytes can begin with these two. -/
def follows (b c : UInt8) : Bool :=
  if b = 0xe0 then 0xa0 ≤ c && c ≤ 0xbf
  else if b = 0xed then 0x80 ≤ c && c ≤ 0x9f
  else if b = 0xf0 then 0x90 ≤ c && c ≤ 0xbf
  else if b = 0xf4 then 0x80 ≤ c && c ≤ 0x8f
  else 0xe1 ≤ b && b ≤ 0xf3 && 0x80 ≤ c && c ≤ 0xbf

/-- How many bytes at the head, which are no character, one replacement character stands for. -/
def brokenLength : List UInt8 → Nat
  | b :: c :: rest =>
    if follows b c then
      match rest with
      | d :: _ => if 0xf0 ≤ b && 0x80 ≤ d && d ≤ 0xbf then 3 else 2
      | [] => 2
    else 1
  | _ => 1

def characters : Nat → List UInt8 → List Char
  | n + 1, b :: rest =>
    let bytes := b :: rest
    match bytes.toByteArray.utf8DecodeChar? 0 with
    | some c => c :: characters n (bytes.drop c.utf8Size)
    | none => '\uFFFD' :: characters n (bytes.drop (brokenLength bytes))
  | _, _ => []

def display (p : OsPath) : String :=
  String.ofList (characters p.bytes.length p.bytes)

/-- How a path is shown from a root. -/
def shown (root p : OsPath) : String :=
  (root.below p).display

end OsPath

def Path.relative (root path : String) : String :=
  (OsPath.ofText root).shown (OsPath.ofText path)

end ShellDecl

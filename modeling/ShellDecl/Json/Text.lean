import ShellDecl.Json.Fault

/-!
# Quoted texts of JSON

Reading the inside of a quoted text. A reader that needs the text demands that the two halves of a character outside
the first plane stand together; one that only passes over the text does not.
-/

set_option autoImplicit false

namespace ShellDecl.Json

structure Cursor where
  mark : Mark
  rest : List Char
  deriving Repr

namespace Cursor

def start (text : List Char) : Cursor :=
  ⟨.start, text⟩

def spot (c : Cursor) : Spot :=
  ⟨c.mark, c.rest.head?⟩

def advance (c : Cursor) (n : Nat) : Cursor :=
  ⟨c.mark.advance (c.rest.take n), c.rest.drop n⟩

end Cursor

namespace Quoted

def letter? (c : Char) : Option Char :=
  if c = '"' || c = '\\' || c = '/' then some c
  else if c = 'b' then some (Char.ofNat 8)
  else if c = 'f' then some (Char.ofNat 12)
  else if c = 'n' then some '\n'
  else if c = 'r' then some '\r'
  else if c = 't' then some '\t'
  else none

def hexValue? (c : Char) : Option Nat :=
  if '0' ≤ c ∧ c ≤ '9' then some (c.toNat - 48)
  else if 'a' ≤ c ∧ c ≤ 'f' then some (c.toNat - 87)
  else if 'A' ≤ c ∧ c ≤ 'F' then some (c.toNat - 55)
  else none

def unit? : List Char → Option Nat
  | a :: b :: c :: d :: _ => do
    return (((← hexValue? a) * 16 + (← hexValue? b)) * 16 + (← hexValue? c)) * 16 + (← hexValue? d)
  | _ => none

def afterBytes (m : Mark) : Nat → List Char → Option Mark
  | 0, _ => some m
  | _ + 1, [] => none
  | n + 1, c :: rest =>
    if c.utf8Size ≤ n + 1 then afterBytes (m.step c) (n + 1 - c.utf8Size) rest
    else some ⟨m.line, m.column + n + 1⟩
termination_by _ rest => rest.length

/-- The fault where four digits were expected: they take four bytes whatever stands there. -/
def unitFault (m : Mark) (text : List Char) : Fault :=
  match afterBytes m 4 text with
  | some m' => .placed .invalidEscape m'
  | none => .placed .endOfString (m.advance text)

/-- Passes over a text behind its opening quote, up to the place behind its closing quote. -/
def pass (m : Mark) : List Char → Except Fault Cursor
  | [] => .error (.placed .endOfString m)
  | c :: rest =>
    if c = '"' then .ok ⟨m.plus 1, rest⟩
    else if c = '\\' then
      match rest with
      | [] => .error (.placed .endOfString (m.plus 1))
      | e :: rest' =>
        if e = 'u' then
          match unit? rest' with
          | some _ => pass (m.plus 6) (rest'.drop 4)
          | none => .error (unitFault (m.plus 2) rest')
        else if (letter? e).isSome then pass (m.plus 2) rest'
        else .error (.placed .invalidEscape ((m.plus 1).afterByte e))
    else if c.toNat < 32 then .error (.placed .controlCharacter m)
    else pass (m.step c) rest
termination_by text => text.length

def isLeading (n : Nat) : Bool :=
  0xd800 ≤ n && n < 0xdc00

def isTrailing (n : Nat) : Bool :=
  0xdc00 ≤ n && n < 0xe000

def trailing (m : Mark) (text : List Char) : Except Fault Nat :=
  match text with
  | [] => .error (.placed .endOfString m)
  | x :: rest =>
    if x ≠ '\\' then .error (.placed .endOfHexEscape (m.afterByte x))
    else
      match rest with
      | [] => .error (.placed .endOfString (m.plus 1))
      | y :: rest' =>
        if y ≠ 'u' then .error (.placed .endOfHexEscape ((m.plus 1).afterByte y))
        else
          match unit? rest' with
          | none => .error (unitFault (m.plus 2) rest')
          | some n =>
            if isTrailing n then .ok n else .error (.placed .loneSurrogate (m.plus 6))

def read (m : Mark) : List Char → Except Fault (List Char)
  | [] => .error (.placed .endOfString m)
  | c :: rest =>
    if c = '"' then .ok []
    else if c = '\\' then
      match rest with
      | [] => .error (.placed .endOfString (m.plus 1))
      | e :: rest' =>
        if e = 'u' then
          match unit? rest' with
          | none => .error (unitFault (m.plus 2) rest')
          | some n =>
            if isTrailing n then .error (.placed .loneSurrogate (m.plus 6))
            else if isLeading n then
              match trailing (m.plus 6) (rest'.drop 4) with
              | .error f => .error f
              | .ok k =>
                (read (m.plus 12) (rest'.drop 10)).map
                  (Char.ofNat (0x10000 + (n - 0xd800) * 0x400 + (k - 0xdc00)) :: ·)
            else (read (m.plus 6) (rest'.drop 4)).map (Char.ofNat n :: ·)
        else
          match letter? e with
          | some x => (read (m.plus 2) rest').map (x :: ·)
          | none => .error (.placed .invalidEscape ((m.plus 1).afterByte e))
    else if c.toNat < 32 then .error (.placed .controlCharacter (m.afterByte c))
    else (read (m.step c) rest).map (c :: ·)
termination_by text => text.length

end Quoted

end ShellDecl.Json

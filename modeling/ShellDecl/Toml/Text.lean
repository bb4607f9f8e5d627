/-!
# Quoted texts of TOML

The four ways to quote a text: with escapes or as it stands, on one line or on several. Each reader starts behind the
opening quotes and answers the text and what follows the closing quotes. A line break in a text of several lines is
always one character.
-/

set_option autoImplicit false

namespace ShellDecl.Toml

/-- The characters that may stand in a text or a comment: no controls but the tabulator. -/
def isPlain (c : Char) : Bool :=
  c == '\t' || (c.toNat ≥ 0x20 && c.toNat != 0x7f)

def isInlineBlank (c : Char) : Bool :=
  c == ' ' || c == '\t'

namespace Quoted

def hexValue? (c : Char) : Option Nat :=
  if '0' ≤ c ∧ c ≤ '9' then some (c.toNat - 48)
  else if 'a' ≤ c ∧ c ≤ 'f' then some (c.toNat - 87)
  else if 'A' ≤ c ∧ c ≤ 'F' then some (c.toNat - 55)
  else none

def hexadecimal? (digits : List Char) : Option Nat :=
  digits.foldl (fun n? c => do return (← n?) * 16 + (← hexValue? c)) (some 0)

def scalar? (n : Nat) : Option Char :=
  if n < 0xd800 ∨ (0xdfff < n ∧ n < 0x110000) then some (Char.ofNat n) else none

def escape? : List Char → Option (Char × Nat)
  | [] => none
  | c :: rest =>
    if c = 'b' then some (Char.ofNat 8, 1)
    else if c = 't' then some ('\t', 1)
    else if c = 'n' then some ('\n', 1)
    else if c = 'f' then some (Char.ofNat 12, 1)
    else if c = 'r' then some ('\r', 1)
    else if c = '"' then some ('"', 1)
    else if c = '\\' then some ('\\', 1)
    else
      let count := if c = 'u' then 4 else if c = 'U' then 8 else 0
      let digits := rest.take count
      if count = 0 ∨ digits.length < count then none
      else do
        let x ← scalar? (← hexadecimal? digits)
        return (x, count + 1)

def basic : List Char → Option (List Char × List Char)
  | [] => none
  | c :: rest =>
    if c = '"' then some ([], rest)
    else if c = '\\' then
      match escape? rest with
      | none => none
      | some (x, n) => (basic (rest.drop n)).map fun (s, more) => (x :: s, more)
    else if isPlain c then (basic rest).map fun (s, more) => (c :: s, more)
    else none
termination_by text => text.length

def literal : List Char → Option (List Char × List Char)
  | [] => none
  | c :: rest =>
    if c = '\x27' then some ([], rest)
    else if isPlain c then (literal rest).map fun (s, more) => (c :: s, more)
    else none

def afterNewline? : List Char → Option (List Char)
  | '\n' :: rest => some rest
  | '\r' :: '\n' :: rest => some rest
  | _ => none

def skipSpace : List Char → List Char
  | '\r' :: '\n' :: rest => skipSpace rest
  | c :: rest => if isInlineBlank c || c == '\n' then skipSpace rest else c :: rest
  | [] => []

theorem length_skipSpace_le (text : List Char) : (skipSpace text).length ≤ text.length := by
  fun_induction skipSpace text <;> simp_all <;> omega

/-- What follows a line break that is escaped, and all the space behind it. -/
def afterJoin? (text : List Char) : Option (List Char) :=
  (afterNewline? (text.dropWhile isInlineBlank)).map skipSpace

theorem length_dropWhile_le (test : Char → Bool) (text : List Char) :
    (text.dropWhile test).length ≤ text.length := by
  induction text with
  | nil => simp
  | cons c rest ih =>
    rw [List.dropWhile_cons]
    split
    · exact Nat.le_succ_of_le ih
    · exact Nat.le_refl _

theorem length_afterNewline_lt {text rest : List Char} (h : afterNewline? text = some rest) :
    rest.length < text.length := by
  unfold afterNewline? at h
  split at h
  · cases h
    exact Nat.lt_succ_self _
  · cases h
    exact Nat.lt_add_of_pos_right Nat.two_pos
  · cases h

theorem length_afterJoin_lt {text rest : List Char} (h : afterJoin? text = some rest) :
    rest.length < text.length := by
  unfold afterJoin? at h
  rw [Option.map_eq_some_iff] at h
  obtain ⟨mid, hm, rfl⟩ := h
  have h1 := length_afterNewline_lt hm
  have h2 := length_skipSpace_le mid
  have h3 := length_dropWhile_le isInlineBlank text
  omega

/-- How many quotes stand at the head of a text, and how many of them belong to a text that they end: what is left
of five at most when three have closed it. -/
def run (quote : Char) (text : List Char) : Nat :=
  (text.takeWhile (· == quote)).length

def kept (quote : Char) (text : List Char) : Nat :=
  min (run quote text - 3) 2

def basicLines : List Char → Option (List Char × List Char)
  | [] => none
  | c :: rest =>
    if c = '"' then
      if 3 ≤ run '"' (c :: rest) then
        let n := kept '"' (c :: rest)
        some (List.replicate n '"', (c :: rest).drop (n + 3))
      else (basicLines rest).map fun (s, more) => ('"' :: s, more)
    else if c = '\\' then
      match _ : afterJoin? rest with
      | some more => basicLines more
      | none =>
        match escape? rest with
        | none => none
        | some (x, n) => (basicLines (rest.drop n)).map fun (s, more) => (x :: s, more)
    else if c = '\r' then
      match rest with
      | '\n' :: rest' => (basicLines rest').map fun (s, more) => ('\n' :: s, more)
      | _ => none
    else if c = '\n' || isPlain c then (basicLines rest).map fun (s, more) => (c :: s, more)
    else none
termination_by text => text.length
decreasing_by
  · simp
  · have := length_afterJoin_lt ‹_›
    simp only [List.length_cons]
    omega
  · simp only [List.length_cons, List.length_drop]
    omega
  · simp only [List.length_cons]
    omega
  · simp

def literalLines : List Char → Option (List Char × List Char)
  | [] => none
  | c :: rest =>
    if c = '\x27' then
      if 3 ≤ run '\x27' (c :: rest) then
        let n := kept '\x27' (c :: rest)
        some (List.replicate n '\x27', (c :: rest).drop (n + 3))
      else (literalLines rest).map fun (s, more) => ('\x27' :: s, more)
    else if c = '\r' then
      match rest with
      | '\n' :: rest' => (literalLines rest').map fun (s, more) => ('\n' :: s, more)
      | _ => none
    else if c = '\n' || isPlain c then (literalLines rest).map fun (s, more) => (c :: s, more)
    else none

def skipNewline (text : List Char) : List Char :=
  (afterNewline? text).getD text

def line : List Char → Option (List Char × List Char)
  | '"' :: rest => basic rest
  | '\x27' :: rest => literal rest
  | _ => none

def read : List Char → Option (List Char × List Char)
  | '"' :: '"' :: '"' :: rest => basicLines (skipNewline rest)
  | '\x27' :: '\x27' :: '\x27' :: rest => literalLines (skipNewline rest)
  | text => line text

end Quoted

end ShellDecl.Toml

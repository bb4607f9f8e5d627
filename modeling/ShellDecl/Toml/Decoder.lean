import ShellDecl.Decimal.Shortest
import ShellDecl.Record
import ShellDecl.Toml.Document

/-!
# Decoding TOML

What records need of TOML. A fault points at the innermost value around it that has a place in the text, and at the key
of a table that has none. There is no null, so an optional value that is written is there. A date counts as a table
without any known key, and items of an array beyond the fields of a record are left alone.
-/

set_option autoImplicit false

namespace ShellDecl.Toml

structure Fault where
  mismatch : Mismatch
  span : Option Span
  deriving DecidableEq, Repr

def Fault.settle (span : Option Span) (f : Fault) : Fault :=
  match f.span with
  | some _ => f
  | none => { f with span := span }

/-- Decimal text without an exponent, with a digit behind the point at least. -/
def floatText (x : Float) : String :=
  if x.isNaN then "NaN"
  else
    let (negative, size) := Decimal.parts x
    let sign := if negative then "-" else ""
    if x.isInf then sign ++ "inf"
    else
      match size with
      | none => sign ++ "0.0"
      | some b =>
        let d := b.shortest
        let digits := (toString d.digits).toList
        let point : Int := digits.length + d.exponent
        let zeros (n : Nat) := List.replicate n '0'
        let text :=
          if 0 ≤ d.exponent then digits ++ zeros d.exponent.toNat ++ ['.', '0']
          else if 0 < point then digits.take point.toNat ++ '.' :: digits.drop point.toNat
          else '0' :: '.' :: zeros (-point).toNat ++ digits
        sign ++ String.ofList text

def Scalar.found : Scalar → Found
  | .string s => .text s
  | .integer i => .integer i
  | .floating x => .floating (floatText x)
  | .boolean b => .boolean b
  | .date => .map

def Item.found : Item → Found
  | .scalar _ v => v.found
  | .array _ _ => .sequence
  | .tables _ => .sequence
  | .table _ => .map

abbrev Decoder (α : Type) := Item → Except Fault α

namespace Decoder

variable {α σ : Type}

def wrongType (v : Item) (expected : String) : Except Fault α :=
  .error ⟨.wrongType v.found expected, v.span⟩

def string : Decoder String := fun v =>
  match v with
  | .scalar _ (.string s) => .ok s
  | v => wrongType v "a string"

def boolean : Decoder Bool := fun v =>
  match v with
  | .scalar _ (.boolean b) => .ok b
  | v => wrongType v "a boolean"

def word : Decoder Nat := fun v =>
  match v with
  | .scalar span (.integer i) =>
    if 0 ≤ i ∧ i < UInt32.size then .ok i.toNat else .error ⟨.wrongValue (.integer i) "u32", some span⟩
  | v => wrongType v "u32"

def optional (decode : Decoder α) : Decoder (Option α) := fun v =>
  (decode v).map some

def conclude (s : Shape σ α Item Fault) (found : σ) : Except Fault α :=
  (s.finish found).mapError fun m => ⟨m, none⟩

def ofEntries (s : Shape σ α Item Fault) (found : σ) : List (Key × Item) → Except Fault α
  | [] => conclude s found
  | (k, v) :: rest =>
    match s.field? k.name with
    | none => ofEntries s found rest
    | some f =>
      if f.isSet found then .error ⟨.duplicateField f.name, none⟩
      else
        match f.decode v found with
        | .error e => .error (e.settle (v.span <|> some k.span))
        | .ok found => ofEntries s found rest

def ofItems (s : Shape σ α Item Fault) (index : Nat) (found : σ) :
    List (Field σ Item Fault) → List Item → Except Fault α
  | [], _ => conclude s found
  | f :: fs, v :: vs =>
    match f.decode v found with
    | .error e => .error e
    | .ok found => ofItems s (index + 1) found fs vs
  | f :: fs, [] =>
    if f.omissible then ofItems s (index + 1) found fs []
    else .error ⟨.wrongLength index s.expected, none⟩

def record (s : Shape σ α Item Fault) : Decoder α := fun v =>
  let gathered :=
    match v with
    | .table t => ofEntries s s.empty t.entries
    | .scalar _ .date => conclude s s.empty
    | .array _ items => ofItems s 0 s.empty s.fields items
    | .tables elements => ofItems s 0 s.empty s.fields (elements.map .table)
    | v => wrongType v s.expected
  gathered.mapError (·.settle v.span)

end Decoder

def format : Format Item Fault where
  string := Decoder.string
  boolean := Decoder.boolean
  word := Decoder.word
  optional := Decoder.optional
  record := Decoder.record

/-! ## Messages -/

def charsBefore (offset : Nat) : List Char → List Char
  | [] => []
  | c :: rest => if offset = 0 then [] else c :: charsBefore (offset - c.utf8Size) rest

/-- The line of a text on which a stretch begins, with a caret under each byte of the stretch that is on it. -/
def excerpt (text : List Char) (span : Span) : String :=
  let before := charsBefore (bytes text - span.ahead) text
  let column := (before.reverse.takeWhile (· != '\n')).length
  let rest := text.drop before.length
  let content := (before.reverse.takeWhile (· != '\n')).reverse ++ rest.takeWhile (· != '\n')
  let number := toString (before.count '\n' + 1)
  let gutter := "".pushn ' ' (number.length + 1) ++ "|"
  let width := max 1 (min (span.ahead - span.behind) (bytes content - column))
  "TOML parse error at line " ++ number ++ ", column " ++ toString (column + 1) ++ "\n"
    ++ gutter ++ "\n"
    ++ number ++ " | " ++ String.ofList content ++ "\n"
    ++ gutter ++ "".pushn ' ' (column + 1) ++ "".pushn '^' width ++ "\n"

def Fault.message (text : String) (f : Fault) : String :=
  (match f.span with
  | some span => excerpt text.toList span
  | none => "") ++ f.mismatch.message ++ "\n"

inductive Error where
  | malformed
  | mismatched (f : Fault)
  deriving DecidableEq, Repr

/-- A file that is no TOML is refused as a whole, without a place. -/
def Error.message (text : String) : Error → String
  | .malformed => "TOML parse error"
  | .mismatched f => f.message text

def Decoder.ofText {α : Type} (decode : Decoder α) (text : String) : Except Error α :=
  match Table.ofText? text with
  | none => .error .malformed
  | some t => (decode (.table t)).mapError .mismatched

end ShellDecl.Toml

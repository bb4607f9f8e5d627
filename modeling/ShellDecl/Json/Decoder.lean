import ShellDecl.Json.Draft

/-!
# Decoders

A decoder makes a value of a draft or meets the first fault in the order of the text. It works straight on a text, and
then places each fault, or on a value that was read and kept before; faults of the latter get their place from the
object around it. A record is decoded from an object, by the names of its fields, or from a list, by their order.
-/

set_option autoImplicit false

namespace ShellDecl.Json

/-- Straight from a text, with a number of levels left to go down, or from a value that was kept. -/
inductive Mode where
  | direct (depth : Nat)
  | kept
  deriving Repr

namespace Mode

def enter (mode : Mode) (start : Spot) : Except Fault Mode :=
  match mode with
  | .kept => .ok .kept
  | .direct 0 => .error (.placed .tooDeep start.next)
  | .direct (depth + 1) => .ok (.direct depth)

def fault (mode : Mode) (cause : Mismatch) (m : Mark) : Fault :=
  match mode with
  | .kept => ⟨.mismatch cause, none⟩
  | .direct _ => ⟨.mismatch cause, some m⟩

def settle (mode : Mode) (m : Mark) (f : Fault) : Fault :=
  match mode, f.place with
  | .direct _, none => ⟨f.cause, some m⟩
  | _, _ => f

end Mode

structure Source where
  mode : Mode
  draft : Draft
  deriving Repr

abbrev Decoder (α : Type) := Source → Except Fault α

def Source.mismatch (s : Source) (expected : String) : Fault :=
  match s.draft with
  | .scalar _ value stop => s.mode.fault (.wrongType value.found expected) stop
  | .refused _ f => f
  | .broken _ wanted _ => wanted
  | .list start _ => s.mode.fault (.wrongType .sequence expected) start.here
  | .object start _ => s.mode.fault (.wrongType .map expected) start.here

namespace Decoder

variable {α : Type}

def string : Decoder String := fun s =>
  match s.draft with
  | .scalar _ (.text t) _ => .ok t
  | _ => .error (s.mismatch "a string")

def boolean : Decoder Bool := fun s =>
  match s.draft with
  | .scalar _ (.boolean b) _ => .ok b
  | _ => .error (s.mismatch "a boolean")

def word : Decoder Nat := fun s =>
  match s.draft with
  | .scalar _ (.number (.natural n)) stop =>
    if n < UInt32.size then .ok n else .error (s.mode.fault (.wrongValue (.integer n) "u32") stop)
  | .scalar _ (.number (.negative n)) stop => .error (s.mode.fault (.wrongValue (.integer (-n)) "u32") stop)
  | _ => .error (s.mismatch "u32")

def optional (decode : Decoder α) : Decoder (Option α) := fun s =>
  match s.draft with
  | .scalar _ .null _ => .ok none
  | _ => (decode s).map some

def throwIf (fault? : Option Fault) (otherwise : Except Fault α) : Except Fault α :=
  match fault? with
  | some f => .error f
  | none => otherwise

def items (decode : Draft → Except Fault α) : Items → Except Fault (List α)
  | .nil _ ending => throwIf ending.inList (.ok [])
  | .cons value rest =>
    match decode value with
    | .error f => .error f
    | .ok a => (items decode rest).map (a :: ·)

def list (decode : Decoder α) : Decoder (List α) := fun s =>
  match s.draft with
  | .list start values => s.mode.enter start >>= fun inner => items (fun d => decode ⟨inner, d⟩) values
  | _ => .error (s.mismatch "a sequence")

end Decoder

def countedElements (n : Nat) : String :=
  toString n ++ (if n = 1 then " element" else " elements")

namespace Gather

variable {σ α : Type}

def conclude (s : Shape σ α Source Fault) (mode : Mode) (settled : Mark) (found : σ) : Except Fault α :=
  (s.finish found).mapError fun m => mode.fault m settled

/-- Passes over a value that no field takes. What was kept has no faults. -/
def passOver (mode : Mode) (d : Draft) : Option Fault :=
  match mode with
  | .direct _ => d.passed?
  | .kept => none

/-- Gathers the fields of an object. A field that comes twice is a fault as soon as its key is read. -/
def ofMembers (s : Shape σ α Source Fault) (mode : Mode) (found : σ) : Members → Except Fault α
  | .nil settled ending => Decoder.throwIf ending.inObject (conclude s mode settled found)
  | .noKey _ instead => .error (.placed .keyNotString instead.start.next)
  | .badKey _ wanted _ => .error wanted
  | .noColon _ key fault =>
    match key.text with
    | .error f => .error f
    | .ok k =>
      match s.field? k with
      | some f => .error (if f.isSet found then mode.fault (.duplicateField f.name) key.settled else fault)
      | none => .error fault
  | .cons _ key value rest =>
    match key.text with
    | .error f => .error f
    | .ok k =>
      match s.field? k with
      | none => Decoder.throwIf (passOver mode value) (ofMembers s mode found rest)
      | some f =>
        if f.isSet found then .error (mode.fault (.duplicateField f.name) key.settled)
        else
          match f.decode ⟨mode, value⟩ found with
          | .error e => .error (mode.settle rest.settled e)
          | .ok found => ofMembers s mode found rest

def count : Items → Nat
  | .nil _ _ => 0
  | .cons _ rest => count rest + 1

def ofItems (s : Shape σ α Source Fault) (mode : Mode) (index : Nat) (found : σ) :
    List (Field σ Source Fault) → Items → Except Fault α
  | f :: fs, .cons value rest =>
    match f.decode ⟨mode, value⟩ found with
    | .error e => .error (mode.settle rest.settled e)
    | .ok found => ofItems s mode (index + 1) found fs rest
  | f :: fs, .nil settled ending =>
    Decoder.throwIf ending.inList
      (if f.omissible then ofItems s mode (index + 1) found fs (.nil settled ending)
      else .error (mode.fault
        (.wrongLength index (s.expected ++ " with " ++ countedElements s.fields.length)) settled))
  | [], .nil settled ending => Decoder.throwIf ending.afterItems (conclude s mode settled found)
  | [], .cons value rest =>
    match mode with
    | .direct _ => .error (.placed .trailingCharacters value.start.next)
    | .kept => .error (Mode.kept.fault
        (.wrongLength (index + count rest + 1) (countedElements index ++ " in sequence")) value.start.here)

def record (s : Shape σ α Source Fault) : Decoder α := fun source =>
  match source.draft with
  | .object start members => source.mode.enter start >>= fun inner => ofMembers s inner s.empty members
  | .list start values => source.mode.enter start >>= fun inner => ofItems s inner 0 s.empty s.fields values
  | _ => .error (source.mismatch s.expected)

end Gather

def format : Format Source Fault where
  string := Decoder.string
  boolean := Decoder.boolean
  word := Decoder.word
  optional := Decoder.optional
  record := Gather.record

def maxDepth : Nat := 127

def Decoder.ofText {α : Type} (decode : Decoder α) (text : String) : Except Fault α :=
  let (draft, rest) := Draft.ofText text
  match decode ⟨.direct maxDepth, draft⟩ with
  | .error f => .error f
  | .ok a =>
    match rest with
    | none => .ok a
    | some c =>
      let c := c.skipBlanks
      if c.rest.isEmpty then .ok a else .error (.placed .trailingCharacters c.spot.next)

end ShellDecl.Json

import ShellDecl.Json.Text

/-!
# Drafts

A text as it was read, before anything is made of it. A draft keeps the places of all its parts, and where the text
breaks off it ends in what is wrong there. Some faults concern only a reader that wants the value: one that passes
over it goes on, or words the fault in its own way. So a draft is total, and whoever decodes it meets the faults in
the order of the text.
-/

set_option autoImplicit false

namespace ShellDecl.Json

inductive Scalar where
  | null
  | boolean (b : Bool)
  | number (n : Number)
  | text (s : String)
  deriving Repr

def Scalar.found : Scalar → Found
  | .null => .null
  | .boolean b => .boolean b
  | .number n => n.found
  | .text s => .text s

/-- How the items of a list or the members of an object end: with their bracket, or with what is there instead of a
comma or of a bracket. -/
inductive Ending where
  | closed
  | cut (spot : Spot)
  | noComma (spot : Spot)
  | commaClosed (spot : Spot)
  | commaCut (spot : Spot)
  deriving Repr

/-- A key: its text, the place behind it, and the place where an object that ended here would be left. -/
structure Key where
  text : Except Fault String
  stop : Mark
  settled : Mark
  deriving Repr

mutual

/-- A refused scalar can only be passed over; after a broken one nothing more was read. -/
inductive Draft where
  | scalar (start : Spot) (value : Scalar) (stop : Mark)
  | refused (start : Spot) (fault : Fault)
  | broken (start : Spot) (wanted passed : Fault)
  | list (start : Spot) (items : Items)
  | object (start : Spot) (members : Members)
  deriving Repr

/-- `settled` is the place where a list that was given up here is left. -/
inductive Items where
  | nil (settled : Mark) (ending : Ending)
  | cons (value : Draft) (rest : Items)
  deriving Repr

/-- `settled` is the place where an object that was given up here is left. -/
inductive Members where
  | nil (settled : Mark) (ending : Ending)
  | noKey (settled : Mark) (instead : Draft)
  | badKey (settled : Mark) (wanted passed : Fault)
  | noColon (settled : Mark) (key : Key) (fault : Fault)
  | cons (settled : Mark) (key : Key) (value : Draft) (rest : Members)
  deriving Repr

end

def Draft.start : Draft → Spot
  | .scalar start _ _ => start
  | .refused start _ => start
  | .broken start _ _ => start
  | .list start _ => start
  | .object start _ => start

def Items.settled : Items → Mark
  | .nil settled _ => settled
  | .cons value _ => value.start.here

def Members.settled : Members → Mark
  | .nil settled _ => settled
  | .noKey settled _ => settled
  | .badKey settled _ _ => settled
  | .noColon settled _ _ => settled
  | .cons settled _ _ _ => settled

/-! ## Reading -/

def isBlank (c : Char) : Bool :=
  c == ' ' || c == '\n' || c == '\t' || c == '\r'

def skipBlanksFrom (m : Mark) : List Char → Cursor
  | c :: rest => if isBlank c then skipBlanksFrom (m.step c) rest else ⟨m, c :: rest⟩
  | [] => ⟨m, []⟩

def Cursor.skipBlanks (c : Cursor) : Cursor :=
  skipBlanksFrom c.mark c.rest

abbrev Read (α : Type) := α × Option Cursor

def breakOff (start : Spot) (f : Fault) : Read Draft :=
  (.broken start f f, none)

def passWord (m : Mark) : List Char → List Char → Except Fault Cursor
  | [], text => .ok ⟨m, text⟩
  | _ :: _, [] => .error (.placed .endOfValue m)
  | w :: word, c :: text =>
    if c = w then passWord (m.step c) word text else .error (.placed .expectedIdent (m.afterByte c))

def readWord (c : Cursor) (word : String) (value : Scalar) : Read Draft :=
  let first := c.advance 1
  match passWord first.mark (word.toList.drop 1) first.rest with
  | .ok e => (.scalar c.spot value e.mark, some e)
  | .error f => breakOff c.spot f

def readNumber (c : Cursor) : Read Draft :=
  match Numeral.length c.rest with
  | .error n =>
    let spot := (c.advance n).spot
    let passed := Fault.placed .invalidNumber spot.next
    (.broken c.spot (if spot.head.isNone then .placed .endOfValue spot.next else passed) passed, none)
  | .ok n =>
    let e := c.advance n
    match Numeral.value (c.rest.take n) with
    | .ok x => (.scalar c.spot (.number x) e.mark, some e)
    | .error k => (.refused c.spot (.placed .numberOutOfRange (c.advance k).mark), some e)

def quotedAt (c : Cursor) : Except (Fault × Fault) (Except Fault String × Cursor) :=
  let first := c.advance 1
  let wanted := Quoted.read first.mark first.rest
  match Quoted.pass first.mark first.rest with
  | .ok e => .ok (wanted.map String.ofList, e)
  | .error passed =>
    match wanted with
    | .error f => .error (f, passed)
    | .ok _ => .error (passed, passed)

def readQuoted (c : Cursor) : Read Draft :=
  match quotedAt c with
  | .error (wanted, passed) => (.broken c.spot wanted passed, none)
  | .ok (.error f, e) => (.refused c.spot f, some e)
  | .ok (.ok s, e) => (.scalar c.spot (.text s) e.mark, some e)

def followedBy (v : Read Draft) (more : Cursor → Read Items) : Read Items :=
  match v with
  | (d, none) => (.cons d (.nil d.start.here (.cut d.start)), none)
  | (d, some e) =>
    let (rest, e') := more e
    (.cons d rest, e')

def readMember (settled : Mark) (c : Cursor) (value : Cursor → Read Draft) (more : Cursor → Read Members) :
    Read Members :=
  if c.rest.head? = some '"' then
    match quotedAt c with
    | .error (wanted, passed) => (.badKey settled wanted passed, none)
    | .ok (text, e) =>
      let f := e.skipBlanks
      let key : Key := ⟨text, e.mark, if f.rest.head? = some '\x7d' then f.spot.next else f.mark⟩
      if f.rest.head? = some ':' then
        match value (f.advance 1) with
        | (d, none) => (.cons settled key d (.nil d.start.here (.cut d.start)), none)
        | (d, some e') =>
          let (rest, e'') := more e'
          (.cons settled key d rest, e'')
      else
        let cause := if f.rest.isEmpty then Cause.endOfObject else .expectedColon
        (.noColon settled key (.placed cause f.spot.next), none)
  else (.noKey settled (value c).1, none)

mutual

/-- Reads the value that begins behind blanks. Each step takes a character or follows one that does, so a fuel of
twice the length is never used up. -/
def readValue : Nat → Cursor → Read Draft
  | 0, c => breakOff c.spot (.placed .endOfValue c.mark)
  | fuel + 1, c =>
    let c := c.skipBlanks
    match c.rest with
    | [] => breakOff c.spot (.placed .endOfValue c.mark)
    | x :: _ =>
      if x = 'n' then readWord c "null" .null
      else if x = 't' then readWord c "true" (.boolean true)
      else if x = 'f' then readWord c "false" (.boolean false)
      else if x = '-' || x.isDigit then readNumber c
      else if x = '"' then readQuoted c
      else if x = '[' then
        let (items, e) := readItems fuel true (c.advance 1)
        (.list c.spot items, e)
      else if x = '\x7b' then
        let (members, e) := readMembers fuel true (c.advance 1)
        (.object c.spot members, e)
      else breakOff c.spot (.placed .expectedValue c.spot.next)

def readItems : Nat → Bool → Cursor → Read Items
  | 0, _, c => (.nil c.mark (.cut c.spot), none)
  | fuel + 1, first, c =>
    let c := c.skipBlanks
    match c.rest with
    | [] => (.nil c.mark (.cut c.spot), none)
    | x :: _ =>
      if x = ']' then (.nil (c.advance 1).mark .closed, some (c.advance 1))
      else if first then followedBy (readValue fuel c) (readItems fuel false)
      else if x = ',' then
        let d := (c.advance 1).skipBlanks
        match d.rest with
        | [] => (.nil d.mark (.commaCut d.spot), none)
        | y :: _ =>
          if y = ']' then (.nil d.mark (.commaClosed d.spot), none)
          else followedBy (readValue fuel d) (readItems fuel false)
      else (.nil c.mark (.noComma c.spot), none)

def readMembers : Nat → Bool → Cursor → Read Members
  | 0, _, c => (.nil c.mark (.cut c.spot), none)
  | fuel + 1, first, c =>
    let c := c.skipBlanks
    match c.rest with
    | [] => (.nil c.mark (.cut c.spot), none)
    | x :: _ =>
      if x = '\x7d' then (.nil (c.advance 1).mark .closed, some (c.advance 1))
      else if first then readMember c.mark c (readValue fuel) (readMembers fuel false)
      else if x = ',' then
        let d := (c.advance 1).skipBlanks
        match d.rest with
        | [] => (.nil c.mark (.commaCut d.spot), none)
        | y :: _ =>
          if y = '\x7d' then (.nil c.mark (.commaClosed d.spot), none)
          else readMember c.mark d (readValue fuel) (readMembers fuel false)
      else (.nil c.mark (.noComma c.spot), none)

end

def Draft.ofText (text : String) : Read Draft :=
  let chars := text.toList
  readValue (2 * chars.length + 2) (.start chars)

/-! ## Faults in the order of the text -/

namespace Ending

def inList : Ending → Option Fault
  | .closed => none
  | .cut spot => some (.placed .endOfList spot.next)
  | .noComma spot => some (.placed .expectedListEnd spot.next)
  | .commaClosed spot => some (.placed .trailingComma spot.next)
  | .commaCut spot => some (.placed .endOfValue spot.next)

def afterItems : Ending → Option Fault
  | .closed => none
  | .cut spot => some (.placed .endOfList spot.next)
  | .noComma spot => some (.placed .trailingCharacters spot.next)
  | .commaClosed spot => some (.placed .trailingComma spot.next)
  | .commaCut spot => some (.placed .trailingCharacters spot.next)

def inPassedList : Ending → Option Fault
  | .closed => none
  | .cut spot => some (.placed .endOfList spot.next)
  | .noComma spot => some (.placed .expectedListEnd spot.next)
  | .commaClosed spot => some (.placed .expectedValue spot.next)
  | .commaCut spot => some (.placed .endOfValue spot.next)

def inObject : Ending → Option Fault
  | .closed => none
  | .cut spot => some (.placed .endOfObject spot.next)
  | .noComma spot => some (.placed .expectedObjectEnd spot.next)
  | .commaClosed spot => some (.placed .trailingComma spot.next)
  | .commaCut spot => some (.placed .endOfValue spot.next)

def inPassedObject : Ending → Option Fault
  | .closed => none
  | .cut spot => some (.placed .endOfObject spot.next)
  | .noComma spot => some (.placed .expectedObjectEnd spot.next)
  | .commaClosed spot => some (.placed .keyNotString spot.next)
  | .commaCut spot => some (.placed .endOfObject spot.next)

end Ending

mutual

/-- The first fault that a reader meets that passes over the value. -/
def Draft.passed? : Draft → Option Fault
  | .scalar _ _ _ => none
  | .refused _ _ => none
  | .broken _ _ passed => some passed
  | .list _ items => items.passed?
  | .object _ members => members.passed?

def Items.passed? : Items → Option Fault
  | .nil _ ending => ending.inPassedList
  | .cons value rest => value.passed? <|> rest.passed?

def Members.passed? : Members → Option Fault
  | .nil _ ending => ending.inPassedObject
  | .noKey _ instead => some (.placed .keyNotString instead.start.next)
  | .badKey _ _ passed => some passed
  | .noColon _ _ fault => some fault
  | .cons _ _ value rest => value.passed? <|> rest.passed?

end

def Key.fault? (k : Key) : Option Fault :=
  match k.text with
  | .ok _ => none
  | .error f => some f

mutual

/-- The first fault that a reader meets that keeps the whole value, with a number of levels left to go down. -/
def Draft.kept? (depth : Nat) : Draft → Option Fault
  | .scalar _ _ _ => none
  | .refused _ fault => some fault
  | .broken _ wanted _ => some wanted
  | .list start items =>
    match depth with
    | 0 => some (.placed .tooDeep start.next)
    | depth + 1 => items.kept? depth
  | .object start members =>
    match depth with
    | 0 => some (.placed .tooDeep start.next)
    | depth + 1 => members.kept? depth

def Items.kept? (depth : Nat) : Items → Option Fault
  | .nil _ ending => ending.inList
  | .cons value rest => value.kept? depth <|> rest.kept? depth

def Members.kept? (depth : Nat) : Members → Option Fault
  | .nil _ ending => ending.inObject
  | .noKey _ instead => some (.placed .keyNotString instead.start.next)
  | .badKey _ wanted _ => some wanted
  | .noColon _ key fault => key.fault? <|> some fault
  | .cons _ key value rest => key.fault? <|> value.kept? depth <|> rest.kept? depth

end

end ShellDecl.Json

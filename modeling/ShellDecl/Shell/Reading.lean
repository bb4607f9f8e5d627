import ShellDecl.Shell.Phrase

/-!
# Readings

A reading of a text is what was read from its beginning and what is left, and together they are the text. Readers are
put together from a few steps: a text, one reader after another, a choice, a repetition, and a node around what
was read.
-/

set_option autoImplicit false

namespace ShellDecl.Shell

/-- What was read, latest first, and what is left. -/
structure Reading (input : List Char) where
  latest : List Phrase
  rest : List Char
  whole : Phrase.spell latest ++ rest = input

namespace Reading

variable {input : List Char}

def start (input : List Char) : Reading input :=
  ⟨[], input, rfl⟩

def andThen (r : Reading input) (q : Reading r.rest) : Reading input where
  latest := q.latest ++ r.latest
  rest := q.rest
  whole := by rw [Phrase.spell_append, List.append_assoc, q.whole, r.whole]

def wrap (kind : String) (isName : Bool) (r : Reading input) : Reading input where
  latest := [.node kind isName r.latest.reverse]
  rest := r.rest
  whole := by simp [Phrase.spell, Phrase.chars, Phrase.charsAll_reverse, r.whole]

def moved (r : Reading input) : Bool :=
  Phrase.anyHasChars r.latest

theorem length_rest_le (r : Reading input) : r.rest.length ≤ input.length := by
  have hw := congrArg List.length r.whole
  simp only [List.length_append] at hw
  omega

theorem length_rest_lt (r : Reading input) (h : r.moved = true) : r.rest.length < input.length := by
  have hp := Phrase.length_pos_of_anyHasChars r.latest h
  have hw := congrArg List.length r.whole
  rw [Phrase.length_charsAll] at hp
  simp only [List.length_append] at hw
  omega

end Reading

structure Reader where
  read : (input : List Char) → Option (Reading input)

namespace Reading

def kinds {input : List Char} (r : Reading input) : List String :=
  r.latest.filterMap fun
    | .node kind _ _ => some kind
    | _ => none

end Reading

namespace Reader

def nothing : Reader :=
  ⟨fun input => some (.start input)⟩

def fail : Reader :=
  ⟨fun _ => none⟩

def take (n : Nat) : Reader :=
  ⟨fun input => some ⟨[.text (input.take n)], input.drop n, by simp [Phrase.spell, Phrase.chars]⟩⟩

def scan (find : List Char → Option Nat) : Reader :=
  ⟨fun input =>
    match find input with
    | some n => (take n).read input
    | none => none⟩

/-- Reads nothing, and only where `test` holds of the text ahead. -/
def ahead (test : List Char → Bool) : Reader :=
  ⟨fun input => if test input then some (.start input) else none⟩

def joint : Reader :=
  ⟨fun input => some ⟨[.joint], input, by simp [Phrase.spell, Phrase.chars]⟩⟩

def text (s : String) : Reader :=
  let cs := s.toList
  ⟨fun input => if cs.isPrefixOf input then (take cs.length).read input else none⟩

def char (test : Char → Bool) : Reader :=
  ⟨fun input =>
    match input with
    | c :: rest => if test c then (take 1).read (c :: rest) else none
    | [] => none⟩

def byHead (choose : Char → Reader) : Reader :=
  ⟨fun input =>
    match input with
    | c :: rest => (choose c).read (c :: rest)
    | [] => none⟩

def span (test : Char → Bool) : Reader :=
  ⟨fun input =>
    match input.takeWhile test with
    | [] => some (.start input)
    | cs => (take cs.length).read input⟩

def andThen (a : Reader) (b : Unit → Reader) : Reader :=
  ⟨fun input =>
    match a.read input with
    | none => none
    | some r =>
      match (b ()).read r.rest with
      | none => none
      | some q => some (r.andThen q)⟩

def orElse (a : Reader) (b : Unit → Reader) : Reader :=
  ⟨fun input =>
    match a.read input with
    | some r => some r
    | none => (b ()).read input⟩

instance : AndThen Reader := ⟨andThen⟩

instance : OrElse Reader := ⟨orElse⟩

def optional (a : Reader) : Reader :=
  a <|> nothing

def firstOf : List Reader → Reader
  | [] => fail
  | a :: as => a <|> firstOf as

def node (kind : String) (a : Reader) : Reader :=
  ⟨fun input => (a.read input).map (Reading.wrap kind false)⟩

def nameNode (kind : String) (a : Reader) : Reader :=
  ⟨fun input => (a.read input).map (Reading.wrap kind true)⟩

def repeatFrom (step : Reader) {input : List Char} (r : Reading input) : Reading input :=
  match step.read r.rest with
  | none => r
  | some q => if _ : q.moved = true then repeatFrom step (r.andThen q) else r
termination_by r.rest.length
decreasing_by exact q.length_rest_lt ‹_›

def many (step : Reader) : Reader :=
  ⟨fun input => some (repeatFrom step (.start input))⟩

def many1 (step : Reader) : Reader :=
  ⟨fun input => (step.read input).map (repeatFrom step)⟩

def growFrom (kind : String) (step : Reader) {input : List Char} (r : Reading input) : Reading input :=
  match step.read r.rest with
  | none => r
  | some q => if _ : q.moved = true then growFrom kind step ((r.andThen q).wrap kind false) else r
termination_by r.rest.length
decreasing_by exact q.length_rest_lt ‹_›

/-- A first part and steps that extend it, each making a node of all that comes before it. -/
def leftChain (kind : String) (first step : Reader) : Reader :=
  ⟨fun input => (first.read input).map (growFrom kind step)⟩

/-- Goes on from `r` with the first of several steps that reads something, making one node of its kind of all that
was read so far, and begins again. -/
def growAnyFrom (steps : List (String × Reader)) {input : List Char} (r : Reading input) : Reading input :=
  match steps.findSome? fun (kind, step) => (step.read r.rest).map fun q => (kind, q) with
  | none => r
  | some (kind, q) =>
    if _ : q.moved = true then growAnyFrom steps ((r.andThen q).wrap kind false) else r
termination_by r.rest.length
decreasing_by exact q.length_rest_lt ‹_›

def growAny (first : Reader) (steps : List (String × Reader)) : Reader :=
  ⟨fun input => (first.read input).map (growAnyFrom steps)⟩

def extended (kind : String) (first more : Reader) : Reader :=
  ⟨fun input =>
    match first.read input with
    | none => none
    | some r =>
      match more.read r.rest with
      | none => some r
      | some q => some ((r.andThen q).wrap kind false)⟩

def separatedFrom (item separator : Reader) {input : List Char} (r : Reading input) : Reading input :=
  match item.read r.rest with
  | none => r
  | some q =>
    match separator.read (r.andThen q).rest with
    | none => r.andThen q
    | some s =>
      if _ : s.moved = true then
        separatedFrom item separator ((r.andThen q).andThen s)
      else (r.andThen q).andThen s
termination_by r.rest.length
decreasing_by
  have hs := s.length_rest_lt ‹_›
  have hq := q.length_rest_le
  simp only [Reading.andThen] at hs hq ⊢
  omega

def separated (item separator : Reader) : Reader :=
  ⟨fun input => some (separatedFrom item separator (.start input))⟩

end Reader

end ShellDecl.Shell

/-!
# Phrases

A script as it is read: bare text, and nodes that are made of smaller phrases. Nothing of the text is dropped, so the
characters of a phrase are the characters that were read to build it.
-/

set_option autoImplicit false

namespace ShellDecl.Shell

/-- A joint is an empty place where two pieces of one word touch. -/
inductive Phrase where
  | text (chars : List Char)
  | joint
  | node (kind : String) (isName : Bool) (parts : List Phrase)
  deriving Repr

namespace Phrase

mutual

def chars : Phrase → List Char
  | .text cs => cs
  | .joint => []
  | .node _ _ parts => charsAll parts

def charsAll : List Phrase → List Char
  | [] => []
  | p :: ps => chars p ++ charsAll ps

end

/-- The characters of phrases that are listed latest first. -/
def spell : List Phrase → List Char
  | [] => []
  | p :: ps => spell ps ++ p.chars

mutual

def hasChars : Phrase → Bool
  | .text [] => false
  | .text (_ :: _) => true
  | .joint => false
  | .node _ _ parts => anyHasChars parts

def anyHasChars : List Phrase → Bool
  | [] => false
  | p :: ps => hasChars p || anyHasChars ps

end

theorem spell_append (ps qs : List Phrase) : spell (ps ++ qs) = spell qs ++ spell ps := by
  induction ps with
  | nil => simp [spell]
  | cons p ps ih => simp [spell, ih]

theorem charsAll_append (ps qs : List Phrase) : charsAll (ps ++ qs) = charsAll ps ++ charsAll qs := by
  induction ps with
  | nil => simp [charsAll]
  | cons p ps ih => simp [charsAll, ih]

theorem charsAll_reverse (ps : List Phrase) : charsAll ps.reverse = spell ps := by
  induction ps with
  | nil => rfl
  | cons p ps ih => simp [charsAll_append, charsAll, spell, ih]

mutual

theorem length_pos_of_hasChars : (p : Phrase) → p.hasChars = true → 0 < p.chars.length
  | .text [], h => by simp [hasChars] at h
  | .text (_ :: _), _ => by simp [chars]
  | .joint, h => by simp [hasChars] at h
  | .node _ _ parts, h => length_pos_of_anyHasChars parts h

theorem length_pos_of_anyHasChars : (ps : List Phrase) → anyHasChars ps = true → 0 < (charsAll ps).length
  | [], h => by simp [anyHasChars] at h
  | p :: ps, h => by
    simp only [anyHasChars, Bool.or_eq_true] at h
    simp only [charsAll, List.length_append]
    cases h with
    | inl h => have := length_pos_of_hasChars p h; omega
    | inr h => have := length_pos_of_anyHasChars ps h; omega

end

theorem length_charsAll (ps : List Phrase) : (charsAll ps).length = (spell ps).length := by
  induction ps with
  | nil => rfl
  | cons p ps ih => simp [charsAll, spell, ih, Nat.add_comm]

end Phrase

end ShellDecl.Shell

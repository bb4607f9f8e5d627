import ShellDecl.Proofs.Location.Written

/-!
# Positions with a plus sign

A line or a column is read with a plus sign in front of its digits and without one, but only digits make the last two
parts of a location its position. So a location is read with its line and its column exactly if neither has a sign. With
a sign, the line falls to the name of the file and the column is read as a line.
-/

set_option autoImplicit false

namespace ShellDecl.Location

open Text

variable {s : String} {text file line column : List Char} {axis : Axis} {m n : Nat}

/-! ## Numbers that can be read -/

theorem coordinate_writes (h : coordinate axis text = .ok n) : WritesWord text n :=
  word?_eq_some_iff.mp (coordinate_eq_ok.mp h).1

theorem coordinate_of_coordinate {other : Axis} (h : coordinate axis text = .ok n) : coordinate other text = .ok n :=
  coordinate_eq_ok.mpr (coordinate_eq_ok.mp h)

theorem not_mem_of_coordinate (h : coordinate axis text = .ok n) : ':' ∉ text := by
  rcases coordinate_writes h with ⟨digits, hsign, hdigits, -, -⟩
  have hcolon : ':' ∉ digits := not_mem_of_isNumber rfl hdigits
  rcases hsign with rfl | rfl
  · exact hcolon
  · simpa using hcolon

theorem isNumber_iff_of_coordinate (h : coordinate axis text = .ok n) :
    isNumber text = true ↔ text.head? ≠ some '+' := by
  rcases coordinate_writes h with ⟨digits, rfl | rfl, hdigits, -, -⟩
  · have hplus : '+' ∉ text := not_mem_of_isNumber rfl hdigits
    exact iff_of_true hdigits fun hhead => hplus (List.mem_of_head? hhead)
  · have hnot : ¬ isNumber ('+' :: digits) = true := fun hall => by
      have hplus := (isNumber_iff.mp hall).2 '+' List.mem_cons_self
      cases hplus
    exact iff_of_false hnot fun hhead => hhead rfl

/-! ## Locations of three parts -/

/-- A text of a file, a line and a column. The last two can be read as numbers. -/
structure HasPosition (text file line column : List Char) (m n : Nat) : Prop where
  text : text = file ++ ':' :: (line ++ ':' :: column)
  file : file ≠ []
  line : coordinate .line line = .ok m
  column : coordinate .column column = .ok n

namespace HasPosition

theorem parts?_eq (h : HasPosition text file line column m n) :
    parts? text =
      if isNumber line && isNumber column then some (file, line, column)
      else some (file ++ ':' :: line, column, ['1']) := by
  rw [h.text, parts?_append file (not_mem_of_coordinate h.line) (not_mem_of_coordinate h.column)]

theorem ofText_eq (h : HasPosition (trim s.toList) file line column m n) : ofText s = ofChars (trim s.toList) := by
  refine ofText_of_trim rfl ?_
  rw [h.text]
  simp

theorem ofText_of_unsigned (h : HasPosition (trim s.toList) file line column m n)
    (hsign : line.head? ≠ some '+' ∧ column.head? ≠ some '+') :
    ofText s = .ok ⟨String.ofList file, m, n⟩ := by
  have hparts := h.parts?_eq
  rw [(isNumber_iff_of_coordinate h.line).mpr hsign.1, (isNumber_iff_of_coordinate h.column).mpr hsign.2] at hparts
  rw [h.ofText_eq, ofChars_of_parts? hparts h.file, h.line, h.column]
  rfl

/-- With a sign in either of them, line and column are not taken for a position. -/
theorem ofText_of_signed (h : HasPosition (trim s.toList) file line column m n)
    (hsign : line.head? = some '+' ∨ column.head? = some '+') :
    ofText s = .ok ⟨String.ofList (file ++ ':' :: line), n, 1⟩ := by
  have hparts := h.parts?_eq
  rw [if_neg] at hparts
  · have hone : coordinate .column ['1'] = .ok 1 := by decide
    rw [h.ofText_eq, ofChars_of_parts? hparts (by simp), coordinate_of_coordinate h.column, hone]
    rfl
  · rw [Bool.and_eq_true, isNumber_iff_of_coordinate h.line, isNumber_iff_of_coordinate h.column]
    exact fun hnone => hsign.elim hnone.1 hnone.2

end HasPosition

theorem position_ne : (⟨String.ofList file, m, n⟩ : Location) ≠ ⟨String.ofList (file ++ ':' :: line), n, 1⟩ := by
  intro heq
  have hlength := congrArg (fun l => l.file.length) heq
  simp at hlength

/-- A location whose line and column can both be read is read with them exactly if neither has a sign. If one of them
has, the line becomes part of the name of the file, the column is read as the line, and the column is 1. -/
theorem ofText_position_iff (h : HasPosition (trim s.toList) file line column m n) :
    (ofText s = .ok ⟨String.ofList file, m, n⟩ ↔ line.head? ≠ some '+' ∧ column.head? ≠ some '+') ∧
    (ofText s = .ok ⟨String.ofList (file ++ ':' :: line), n, 1⟩ ↔ line.head? = some '+' ∨ column.head? = some '+') := by
  by_cases hsign : line.head? = some '+' ∨ column.head? = some '+'
  · have hread := h.ofText_of_signed hsign
    rw [hread, ← not_or]
    refine ⟨iff_of_false (fun heq => ?_) (not_not_intro hsign), iff_of_true rfl hsign⟩
    exact position_ne (Except.ok.inj heq).symm
  · have hread := h.ofText_of_unsigned (not_or.mp hsign)
    rw [hread, ← not_or]
    refine ⟨iff_of_true rfl hsign, iff_of_false (fun heq => ?_) hsign⟩
    exact position_ne (Except.ok.inj heq)

/-- Not every location whose line and column can be read is read with them. -/
theorem not_always_position :
    ¬ ∀ (s : String) (file line column : List Char) (m n : Nat),
      trim s.toList = s.toList → HasPosition s.toList file line column m n →
      ofText s = .ok ⟨String.ofList file, m, n⟩ := by
  intro hall
  have htrim : trim "deploy.sh:10:+5".toList = "deploy.sh:10:+5".toList := by decide
  have hposition : HasPosition "deploy.sh:10:+5".toList "deploy.sh".toList "10".toList "+5".toList 10 5 :=
    ⟨by decide, by decide, by decide, by decide⟩
  have hread := hall _ _ _ _ 10 5 htrim hposition
  rw [(ofText_position_iff (htrim ▸ hposition)).1] at hread
  exact hread.2 rfl

end ShellDecl.Location

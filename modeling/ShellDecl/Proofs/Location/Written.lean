import Mathlib.Data.List.Basic
import ShellDecl.Location
import ShellDecl.Proofs.Text.Word

/-!
# Written locations

A location that is written with its line and its column is read back, whatever the name of its file is, and what was
read from any text is read again from this form of it. Written with its line alone it is read back unless the name ends
in a colon and digits, which are then taken for the line.
-/

set_option autoImplicit false

namespace ShellDecl

namespace Text

/-! ## Blanks -/

variable {text digits : List Char}

/-- The text begins with a character that is not blank. -/
def StartsPlain (text : List Char) : Prop :=
  ∃ c rest, text = c :: rest ∧ isBlank c = false

theorem StartsPlain.ne_nil (h : StartsPlain text) : text ≠ [] := by
  obtain ⟨c, rest, rfl, -⟩ := h
  exact List.cons_ne_nil c rest

theorem StartsPlain.append (h : StartsPlain text) (rest : List Char) : StartsPlain (text ++ rest) := by
  obtain ⟨c, more, rfl, hc⟩ := h
  exact ⟨c, more ++ rest, rfl, hc⟩

theorem StartsPlain.of_append {rest : List Char} (h : StartsPlain (text ++ rest)) (hne : text ≠ []) :
    StartsPlain text := by
  obtain ⟨c, more, rfl⟩ := List.exists_cons_of_ne_nil hne
  obtain ⟨d, tail, heq, hd⟩ := h
  obtain ⟨rfl, -⟩ := List.cons.inj heq
  exact ⟨c, more, rfl, hd⟩

theorem isBlank_of_isDigit {c : Char} (h : c.isDigit = true) : isBlank c = false := by
  rw [Char.isDigit, Bool.and_eq_true, decide_eq_true_eq, decide_eq_true_eq] at h
  have hdigit : 48 ≤ c.toNat ∧ c.toNat ≤ 57 := h
  simp only [isBlank, Bool.or_eq_false_iff, Bool.and_eq_false_iff, decide_eq_false_iff_not, beq_eq_false_iff_ne]
  omega

theorem trimEnd_concat {c : Char} (h : isBlank c = false) (text : List Char) :
    trimEnd (text ++ [c]) = text ++ [c] := by
  induction text with
  | nil => simp [trimEnd, h]
  | cons d text ih => cases text <;> simp_all [trimEnd]

theorem trimEnd_prefix (text : List Char) : trimEnd text <+: text := by
  induction text with
  | nil => exact List.prefix_rfl
  | cons c text ih =>
    rw [trimEnd]
    split
    · split
      · exact List.nil_prefix
      · simp
    · exact (List.cons_prefix_cons ..).mpr ⟨rfl, ih⟩

theorem trim_number (h : StartsPlain text) (hdigits : isNumber digits = true) :
    trim (text ++ digits) = text ++ digits := by
  obtain ⟨c, rest, htext, hc⟩ := h.append digits
  have hstart : (text ++ digits).dropWhile isBlank = text ++ digits := by
    rw [htext, List.dropWhile_cons_of_neg (by simp [hc])]
  obtain ⟨hne, hall⟩ := isNumber_iff.mp hdigits
  obtain ⟨front, last, rfl⟩ := (List.eq_nil_or_concat' digits).resolve_left hne
  rw [trim, hstart, ← List.append_assoc, trimEnd_concat (isBlank_of_isDigit (hall last (by simp)))]

theorem startsPlain_trim (h : trim text ≠ []) : StartsPlain (trim text) := by
  obtain ⟨rest, hrest⟩ := trimEnd_prefix (text.dropWhile isBlank)
  have hplain := List.head?_dropWhile_not isBlank text
  obtain ⟨c, more, hc⟩ := List.exists_cons_of_ne_nil h
  refine ⟨c, more, hc, ?_⟩
  rw [trim] at hc
  rw [← hrest, hc] at hplain
  exact hplain

end Text

namespace Location

open Text

/-! ## Parts -/

variable {text before behind file line column : List Char}

theorem splitLast?_of_not_mem (h : ':' ∉ text) : splitLast? text = none := by
  induction text with
  | nil => rfl
  | cons c text ih =>
    obtain ⟨hc, htext⟩ := not_or.mp (List.mem_cons.not.mp h)
    rw [splitLast?, ih htext]
    exact if_neg (Ne.symm hc)

theorem splitLast?_append (before : List Char) (h : ':' ∉ behind) :
    splitLast? (before ++ ':' :: behind) = some (before, behind) := by
  induction before with
  | nil => rw [List.nil_append, splitLast?, splitLast?_of_not_mem h]; rfl
  | cons c before ih => rw [List.cons_append, splitLast?, ih]

theorem eq_of_splitLast? (h : splitLast? text = some (before, behind)) : text = before ++ ':' :: behind := by
  induction text generalizing before with
  | nil => cases h
  | cons c text ih =>
    rw [splitLast?] at h
    cases hsplit : splitLast? text with
    | none =>
      simp only [hsplit, Option.ite_none_right_eq_some, Option.some.injEq, Prod.mk.injEq] at h
      obtain ⟨rfl, rfl, rfl⟩ := h
      rfl
    | some found =>
      obtain ⟨front, back⟩ := found
      simp only [hsplit, Option.some.injEq, Prod.mk.injEq] at h
      obtain ⟨rfl, rfl⟩ := h
      rw [ih hsplit, List.cons_append]

/-- The parts between the last two colons and behind them are the position if both are made of digits. -/
theorem parts?_append (file : List Char) (hline : ':' ∉ line) (hcolumn : ':' ∉ column) :
    parts? (file ++ ':' :: (line ++ ':' :: column)) =
      if isNumber line && isNumber column then some (file, line, column) else some (file ++ ':' :: line, column, ['1']) := by
  rw [parts?, ← List.cons_append, ← List.append_assoc, splitLast?_append _ hcolumn]
  simp only [splitLast?_append _ hline]

theorem parts?_of_numbers (hline : isNumber line = true) (hcolumn : isNumber column = true) :
    parts? (file ++ ':' :: (line ++ ':' :: column)) = some (file, line, column) := by
  rw [parts?_append file (not_mem_of_isNumber rfl hline) (not_mem_of_isNumber rfl hcolumn), hline, hcolumn]
  rfl

/-- The text ends in a colon and digits. -/
def EndsInNumber (text : List Char) : Prop :=
  ∃ before digits, text = before ++ ':' :: digits ∧ isNumber digits = true

theorem endsInNumber_iff :
    EndsInNumber text ↔ ((splitLast? text).any fun found => isNumber found.2) = true := by
  rw [Option.any_eq_true]
  constructor
  · rintro ⟨before, digits, rfl, hdigits⟩
    exact ⟨_, splitLast?_append before (not_mem_of_isNumber rfl hdigits), hdigits⟩
  · rintro ⟨⟨before, digits⟩, hsplit, hdigits⟩
    exact ⟨before, digits, eq_of_splitLast? hsplit, hdigits⟩

instance (text : List Char) : Decidable (EndsInNumber text) :=
  decidable_of_iff _ endsInNumber_iff.symm

theorem parts?_of_not_endsInNumber (hline : isNumber line = true) (hfile : ¬EndsInNumber file) :
    parts? (file ++ ':' :: line) = some (file, line, ['1']) := by
  rw [parts?, splitLast?_append _ (not_mem_of_isNumber rfl hline)]
  cases hsplit : splitLast? file with
  | none => simp only [hsplit]
  | some found =>
    obtain ⟨front, last⟩ := found
    have hlast : isNumber last = false := by
      simpa [endsInNumber_iff, hsplit] using hfile
    simp [hsplit, hlast]

theorem parts?_prefix (h : parts? text = some (file, line, column)) : ∃ rest, text = file ++ ':' :: rest := by
  rw [parts?] at h
  cases hsplit : splitLast? text with
  | none => simp [hsplit] at h
  | some found =>
    obtain ⟨front, last⟩ := found
    have htext := eq_of_splitLast? hsplit
    simp only [hsplit] at h
    cases hinner : splitLast? front with
    | none =>
      simp only [hinner, Option.some.injEq, Prod.mk.injEq] at h
      exact ⟨last, h.1 ▸ htext⟩
    | some inner =>
      obtain ⟨name, digits⟩ := inner
      simp only [hinner] at h
      split at h
      · obtain rfl : name = file := (Prod.mk.inj (Option.some.inj h)).1
        exact ⟨digits ++ ':' :: last, by rw [htext, eq_of_splitLast? hinner]; simp⟩
      · obtain rfl : front = file := (Prod.mk.inj (Option.some.inj h)).1
        exact ⟨last, htext⟩

/-! ## Reading -/

def IsCoordinate (n : Nat) : Prop :=
  0 < n ∧ n < UInt32.size

variable {n : Nat} {l : Location}

theorem coordinate_eq_ok {axis : Axis} : coordinate axis text = .ok n ↔ word? text = some n ∧ n ≠ 0 := by
  rw [coordinate]
  cases word? text with
  | none => simp
  | some m => cases m <;> grind

theorem coordinate_nat (axis : Axis) (h : IsCoordinate n) : coordinate axis (toString n).toList = .ok n :=
  coordinate_eq_ok.mpr ⟨word?_nat h.2, h.1.ne'⟩

theorem isCoordinate_of_coordinate {axis : Axis} (h : coordinate axis text = .ok n) : IsCoordinate n := by
  obtain ⟨hword, hne⟩ := coordinate_eq_ok.mp h
  exact ⟨Nat.pos_of_ne_zero hne, (word?_eq_some_iff.mp hword).lt⟩

theorem ofChars_of_parts? (h : parts? text = some (file, line, column)) (hfile : file ≠ []) :
    ofChars text = (coordinate .line line).bind fun m =>
      (coordinate .column column).map fun n => ⟨String.ofList file, m, n⟩ := by
  rw [ofChars, h]
  simp only [List.isEmpty_eq_false_iff.mpr hfile, Bool.false_eq_true, if_false]
  cases coordinate .line line <;> cases coordinate .column column <;> rfl

theorem parts?_of_ofChars (h : ofChars text = .ok l) :
    ∃ line column, parts? text = some (l.file.toList, line, column) ∧ l.file.toList ≠ [] ∧
      coordinate .line line = .ok l.line ∧ coordinate .column column = .ok l.column := by
  cases hparts : parts? text with
  | none => simp [ofChars, hparts] at h
  | some parts =>
    obtain ⟨file, line, column⟩ := parts
    by_cases hfile : file = []
    · simp [ofChars, hparts, hfile] at h
    · rw [ofChars_of_parts? hparts hfile] at h
      cases hline : coordinate .line line with
      | error e =>
        rw [hline] at h
        cases h
      | ok m =>
        cases hcolumn : coordinate .column column with
        | error e =>
          rw [hline, hcolumn] at h
          cases h
        | ok n =>
          rw [hline, hcolumn] at h
          obtain rfl := Except.ok.inj h
          rw [String.toList_ofList]
          exact ⟨line, column, rfl, hfile, hline, hcolumn⟩

theorem ofText_of_trim {s : String} (htrim : trim s.toList = text) (hne : text ≠ []) : ofText s = ofChars text := by
  obtain ⟨c, rest, rfl⟩ := List.exists_cons_of_ne_nil hne
  rw [ofText, htrim]

theorem ofText_of_number {s : String} {digits : List Char} (htext : s.toList = text ++ digits)
    (hplain : StartsPlain text) (hdigits : isNumber digits = true) : ofText s = ofChars s.toList := by
  have hne : s.toList ≠ [] := by
    rw [htext]
    exact List.append_ne_nil_of_right_ne_nil _ (isNumber_iff.mp hdigits).1
  exact ofText_of_trim (by rw [htext, trim_number hplain hdigits]) hne

theorem ofText_eq_ok {s : String} (h : ofText s = .ok l) :
    ofChars (trim s.toList) = .ok l ∧ StartsPlain l.file.toList := by
  by_cases hne : trim s.toList = []
  · rw [ofText, hne] at h
    cases h
  · have hchars := (ofText_of_trim rfl hne).symm.trans h
    obtain ⟨line, column, hparts, hfile, -⟩ := parts?_of_ofChars hchars
    obtain ⟨rest, hrest⟩ := parts?_prefix hparts
    have hplain := startsPlain_trim hne
    rw [hrest] at hplain
    exact ⟨hchars, hplain.of_append hfile⟩

/-! ## Writing -/

def written (l : Location) : String :=
  l.file ++ ":" ++ toString l.line ++ ":" ++ toString l.column

def writtenShort (file : String) (line : Nat) : String :=
  file ++ ":" ++ toString line

theorem toList_writtenShort (file : String) (line : Nat) :
    (writtenShort file line).toList = file.toList ++ ':' :: (toString line).toList := by
  have hcolon : ":".toList = [':'] := rfl
  simp only [writtenShort, String.toList_append, hcolon, List.append_assoc, List.cons_append, List.nil_append]

theorem toList_written (l : Location) :
    l.written.toList = l.file.toList ++ ':' :: ((toString l.line).toList ++ ':' :: (toString l.column).toList) := by
  have hcolon : ":".toList = [':'] := rfl
  simp only [written, String.toList_append, hcolon, List.append_assoc, List.cons_append, List.nil_append]

theorem ofText_of_written (hfile : StartsPlain l.file.toList) (hline : IsCoordinate l.line)
    (hcolumn : IsCoordinate l.column) : ofText l.written = .ok l := by
  have hsplit : l.written.toList =
      (l.file.toList ++ ':' :: ((toString l.line).toList ++ [':'])) ++ (toString l.column).toList := by
    rw [toList_written]
    simp
  have hparts : parts? l.written.toList =
      some (l.file.toList, (toString l.line).toList, (toString l.column).toList) := by
    rw [toList_written]
    exact parts?_of_numbers (isNumber_nat l.line) (isNumber_nat l.column)
  rw [ofText_of_number hsplit (hfile.append _) (isNumber_nat l.column), ofChars_of_parts? hparts hfile.ne_nil,
    coordinate_nat .line hline, coordinate_nat .column hcolumn, String.ofList_toList]
  rfl

theorem ofText_of_writtenShort {f : String} (hfile : StartsPlain f.toList) (hline : IsCoordinate n) :
    ofText (writtenShort f n) = .ok ⟨f, n, 1⟩ ↔ ¬EndsInNumber f.toList := by
  have hnumber := isNumber_nat n
  have hsplit : (writtenShort f n).toList = (f.toList ++ [':']) ++ (toString n).toList := by
    rw [toList_writtenShort]
    simp
  rw [ofText_of_number hsplit (hfile.append _) hnumber]
  constructor
  · rintro hread ⟨before, digits, hf, hdigits⟩
    obtain ⟨line, column, hparts, -⟩ := parts?_of_ofChars hread
    rw [toList_writtenShort, hf, List.append_assoc, List.cons_append, parts?_of_numbers hdigits hnumber] at hparts
    -- The file that is read lacks the digits that its name ends in.
    have hlength := congrArg List.length (Prod.mk.inj (Option.some.inj hparts)).1
    simp at hlength
  · intro hends
    have hparts : parts? (writtenShort f n).toList = some (f.toList, (toString n).toList, ['1']) := by
      rw [toList_writtenShort]
      exact parts?_of_not_endsInNumber hnumber hends
    have hone : coordinate .column ['1'] = .ok 1 := by decide
    rw [ofChars_of_parts? hparts hfile.ne_nil, coordinate_nat .line hline, hone, String.ofList_toList]
    rfl

/-- A location with line and column is read back, and one with its line alone is read back exactly if the name of its
file does not end in a colon and digits. What was read from any text has a file and two positive numbers of 32 bits,
and is read again from what is written of it. -/
theorem ofText_written :
    (∀ (file : String) (line column : Nat), StartsPlain file.toList → IsCoordinate line → IsCoordinate column →
      ofText (written ⟨file, line, column⟩) = .ok ⟨file, line, column⟩) ∧
    (∀ (file : String) (line : Nat), StartsPlain file.toList → IsCoordinate line →
      (ofText (writtenShort file line) = .ok ⟨file, line, 1⟩ ↔ ¬EndsInNumber file.toList)) ∧
    ∀ (s : String) (l : Location), ofText s = .ok l →
      l.file ≠ "" ∧ IsCoordinate l.line ∧ IsCoordinate l.column ∧ ofText l.written = .ok l := by
  refine ⟨fun file line column => @ofText_of_written ⟨file, line, column⟩, fun file line => ofText_of_writtenShort,
    fun s l h => ?_⟩
  obtain ⟨hchars, hplain⟩ := ofText_eq_ok h
  obtain ⟨line, column, -, hfile, hline, hcolumn⟩ := parts?_of_ofChars hchars
  have hl := isCoordinate_of_coordinate hline
  have hc := isCoordinate_of_coordinate hcolumn
  exact ⟨by simpa using hfile, hl, hc, ofText_of_written hplain hl hc⟩

/-- Colons, digits and blanks in a name do no harm where line and column follow; with the line alone, digits at the end
of the name do. -/
theorem ofText_written_colons :
    ofText (written ⟨"C:\\a 7:12", 3, 4⟩) = .ok ⟨"C:\\a 7:12", 3, 4⟩ ∧
      ofText (writtenShort "C:\\a 7:12" 3) ≠ .ok ⟨"C:\\a 7:12", 3, 1⟩ ∧
      ofText (writtenShort "12:+7" 3) = .ok ⟨"12:+7", 3, 1⟩ ∧
      ofText (written ⟨"a", 5, 1⟩) = .ok ⟨"a", 5, 1⟩ := by
  have hname : StartsPlain "C:\\a 7:12".toList := ⟨'C', ":\\a 7:12".toList, by decide, by decide⟩
  have hdigit : StartsPlain "12:+7".toList := ⟨'1', "2:+7".toList, by decide, by decide⟩
  have hline : IsCoordinate 3 := by unfold IsCoordinate; decide
  refine ⟨?_, ?_, ?_, ?_⟩
  · exact ofText_written.1 _ 3 4 hname hline (by unfold IsCoordinate; decide)
  · exact (ofText_written.2.1 _ 3 hname hline).not.mpr (by decide)
  · exact (ofText_written.2.1 _ 3 hdigit hline).mpr (by decide)
  · exact (ofText_written.2.2 " a:+5\n" ⟨"a", 5, 1⟩ (by decide +kernel)).2.2.2

end Location

end ShellDecl

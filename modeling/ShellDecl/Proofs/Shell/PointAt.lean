import ShellDecl.Proofs.Shell.Point

/-!
# Cursors and points

A cursor is a line and a character column, both counted from one. A point is a row and a byte column, both counted from
zero. Each cursor on a character has a point, and to count back the characters in front of that point on its line is to
find the cursor again.
-/

set_option autoImplicit false

namespace ShellDecl.Shell

open Position (first lastLine lastLine_append_newline lastLine_of_not_mem)

/-- The characters of a line, which is counted from one. -/
def lineAt (source : String) (line : Nat) : List Char :=
  (source.toList.splitOn '\n').getD (line - 1) []

theorem exists_before_of_row {text chars : List Char} {row column : Nat}
    (hrow : (text.splitOn '\n')[row]? = some chars) (hcolumn : column < chars.length) :
    ∃ before c rest, text = before ++ c :: rest ∧ c ≠ '\n' ∧ before.count '\n' = row ∧
      lastLine before = chars.take column := by
  induction row generalizing text with
  | zero =>
    -- The first line is what stands in front of the first line break.
    have hfirst : ∃ tail, text = chars ++ tail ∧ '\n' ∉ chars := by
      by_cases h : '\n' ∈ text
      · obtain ⟨head, tail, rfl, hhead⟩ := List.eq_append_cons_of_mem h
        rw [List.splitOn_append_cons_self_of_not_mem hhead] at hrow
        obtain rfl : head = chars := by simpa using hrow
        exact ⟨_, rfl, hhead⟩
      · rw [List.splitOn_eq_singleton h] at hrow
        obtain rfl : text = chars := by simpa using hrow
        exact ⟨[], (List.append_nil _).symm, h⟩
    obtain ⟨tail, rfl, hchars⟩ := hfirst
    have hbefore : '\n' ∉ chars.take column := fun h => hchars (List.mem_of_mem_take h)
    refine ⟨chars.take column, chars[column], chars.drop (column + 1) ++ tail, ?_, ?_, ?_, ?_⟩
    · rw [← List.cons_append, List.getElem_cons_drop, ← List.append_assoc, List.take_append_drop]
    · exact fun h => hchars (h ▸ List.getElem_mem hcolumn)
    · exact List.count_eq_zero_of_not_mem hbefore
    · exact lastLine_of_not_mem hbefore
  | succ row ih =>
    have h : '\n' ∈ text := by
      by_contra h
      rw [List.splitOn_eq_singleton h] at hrow
      simp at hrow
    obtain ⟨head, tail, rfl, hhead⟩ := List.eq_append_cons_of_mem h
    rw [List.splitOn_append_cons_self_of_not_mem hhead, List.getElem?_cons_succ] at hrow
    obtain ⟨before, c, rest, rfl, hc, hcount, hlast⟩ := ih hrow
    refine ⟨head ++ '\n' :: before, c, rest, ?_, hc, ?_, ?_⟩
    · rw [List.append_assoc, List.cons_append]
    · rw [List.count_append, List.count_cons_self, List.count_eq_zero_of_not_mem hhead, hcount, Nat.zero_add]
    · rw [lastLine_append_newline, hlast]

section

variable {source : String} {line column : Nat} {p : Point}

theorem pointAt?_eq_some_iff :
    pointAt? source line column = some p ↔
      (1 ≤ line ∧ line ≤ (source.toList.splitOn '\n').length) ∧
      (1 ≤ column ∧ column ≤ (lineAt source line).length) ∧
      p = ⟨line - 1, (String.ofList ((lineAt source line).take (column - 1))).utf8ByteSize⟩ := by
  cases line with
  | zero => simp [pointAt?]
  | succ row =>
    cases column with
    | zero => simp [pointAt?]
    | succ before =>
      rw [pointAt?, row?_eq, lineAt, ← byteLength_eq_utf8ByteSize, List.getD_eq_getElem?_getD, Nat.add_sub_cancel]
      by_cases hrow : row < (source.toList.splitOn '\n').length
      · rw [List.getElem?_eq_getElem hrow]
        simp only [Option.getD_some, Option.ite_none_right_eq_some, Option.some.injEq, Nat.add_sub_cancel]
        constructor
        · rintro ⟨hlength, rfl⟩
          exact ⟨⟨Nat.succ_pos row, hrow⟩, ⟨Nat.succ_pos before, hlength⟩, rfl⟩
        · rintro ⟨-, ⟨-, hlength⟩, rfl⟩
          exact ⟨hlength, rfl⟩
      · rw [List.getElem?_eq_none (Nat.le_of_not_lt hrow)]
        exact iff_of_false (Option.some_ne_none p).symm fun h => hrow h.1.2

theorem exists_before_of_pointAt? (h : pointAt? source line column = some p) :
    ∃ before c rest, source.toList = before ++ c :: rest ∧ c ≠ '\n' ∧ first.advance before = ⟨line, column⟩ := by
  obtain ⟨⟨hline, hlines⟩, ⟨hcolumn, hlength⟩, -⟩ := pointAt?_eq_some_iff.mp h
  have hrow : (source.toList.splitOn '\n')[line - 1]? = some (lineAt source line) := by
    rw [lineAt, List.getD_eq_getElem?_getD, List.getElem?_eq_getElem (by omega)]
    rfl
  obtain ⟨before, c, rest, hsource, hc, hcount, hlast⟩ := exists_before_of_row hrow (Nat.sub_one_lt_of_le hcolumn hlength)
  refine ⟨before, c, rest, hsource, hc, ?_⟩
  rw [Position.first_advance, hcount, hlast, List.length_take]
  congr 1 <;> omega

/-- A node that begins at a character is found back from the start of its extent. -/
theorem pointAt?_extent_start {n : Node} {before rest : List Char} {c : Char}
    (hsource : source.toList = before ++ c :: rest) (hc : c ≠ '\n') (hstart : n.start.IsAfter before) :
    pointAt? source (n.extent source).start.line (n.extent source).start.column = some n.start.point := by
  rw [Node.extent_start hsource hstart, pointAt?_advance hsource hc, ← hstart.eq_advance]

/-- The point of a cursor is that of a place of the source, and the extent of a node that begins there begins at the
cursor. -/
theorem exists_place_of_pointAt? (h : pointAt? source line column = some p) :
    ∃ q : Place, q.IsIn source ∧ q.point = p ∧ ∀ n : Node, n.start = q → (n.extent source).start = ⟨line, column⟩ := by
  obtain ⟨before, c, rest, hsource, hc, hadvance⟩ := exists_before_of_pointAt? h
  have hafter := Place.isAfter_advance before
  have hcursor := pointAt?_advance hsource hc
  rw [hadvance, h, Option.some.injEq] at hcursor
  refine ⟨Place.origin.advance before, ⟨before.length, by simp [hsource], by simpa [hsource]⟩, hcursor.symm, ?_⟩
  intro n hstart
  rw [Node.extent_start hsource (hstart ▸ hafter), hadvance]

end

/-- Cursors on characters and points are turned into each other: a cursor has a point exactly if it is on a character of
its line, a node is found back from the start of its extent, and the extent of what begins at the point of a cursor
begins at the cursor. -/
theorem pointAt?_inverse (source : String) :
    (∀ line column p, pointAt? source line column = some p ↔
      (1 ≤ line ∧ line ≤ (source.toList.splitOn '\n').length) ∧
      (1 ≤ column ∧ column ≤ (lineAt source line).length) ∧
      p = ⟨line - 1, (String.ofList ((lineAt source line).take (column - 1))).utf8ByteSize⟩) ∧
    (∀ (n : Node) (before : List Char) (c : Char) (rest : List Char), source.toList = before ++ c :: rest → c ≠ '\n' →
      n.start.IsAfter before →
      pointAt? source (n.extent source).start.line (n.extent source).start.column = some n.start.point) ∧
    (∀ line column p, pointAt? source line column = some p →
      (∃ q : Place, q.IsIn source ∧ q.point = p) ∧
      ∀ n : Node, n.start.IsIn source → n.start.point = p → (n.extent source).start = ⟨line, column⟩) := by
  refine ⟨fun line column p => pointAt?_eq_some_iff, fun n before c rest => pointAt?_extent_start, ?_⟩
  intro line column p h
  obtain ⟨q, hin, hpoint, hextent⟩ := exists_place_of_pointAt? h
  refine ⟨⟨q, hin, hpoint⟩, fun n hstart hsame => hextent n ?_⟩
  -- Two places of a source with one point are one place.
  apply hstart.eq_of_byte_eq hin
  rw [← hstart.point_eq_iff hin, hsame, hpoint]

def carried : String := "a\r\né; ü y"

def umlaut : Node := .mk "word" true false ⟨7, 1, 4⟩ ⟨9, 1, 6⟩ []

theorem pointAt?_inverse_carried :
    (carried.toList = "a\r\né; ".toList ++ 'ü' :: " y".toList ∧ 'ü' ≠ '\n' ∧
      umlaut.start.IsAfter "a\r\né; ".toList ∧
      pointAt? carried (umlaut.extent carried).start.line (umlaut.extent carried).start.column =
        some umlaut.start.point) ∧
    pointAt? carried 2 4 = some ⟨1, 4⟩ ∧ (∃ q : Place, q.IsIn carried ∧ q.point = ⟨1, 4⟩) ∧
    umlaut.start.IsIn carried ∧ umlaut.start.point = ⟨1, 4⟩ ∧ (umlaut.extent carried).start = ⟨2, 4⟩ := by
  have hsource : carried.toList = "a\r\né; ".toList ++ 'ü' :: " y".toList := by decide
  have hafter : umlaut.start.IsAfter "a\r\né; ".toList := by decide
  have hcursor : pointAt? carried 2 4 = some ⟨1, 4⟩ := by decide
  have hin : umlaut.start.IsIn carried := by decide
  obtain ⟨-, hnode, hpoint⟩ := pointAt?_inverse carried
  obtain ⟨hplace, hextent⟩ := hpoint 2 4 ⟨1, 4⟩ hcursor
  exact ⟨⟨hsource, by decide, hafter, hnode umlaut _ _ _ hsource (by decide) hafter⟩, hcursor, hplace, hin, rfl,
    hextent umlaut hin rfl⟩

end ShellDecl.Shell
